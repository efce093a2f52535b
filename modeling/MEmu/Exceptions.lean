import MEmu.Modes
import MEmu.Routing

/-!
# Precise exceptions

On a bus whose devices are RAM, a step that traps enters `raiseTrap` once and
leaves the registers, the memory and `minstret` as they were.  The bus part is
that reads and refused writes store nothing; the access part that an access which
ends in a cause made no other call; the rest is the shape of a step.
-/

namespace MEmu

open Run (Sat Keeps AbortsIn)

/-! ## Accesses that end in a cause -/

/-- Where the result is a cause, the device objects are those of `s`. -/
def Unstored (s : MMUSys RAMBus) (r : Except ExecFeedbackCode Word) (s' : MMUSys RAMBus) : Prop :=
  ∀ cause, r = .error cause → s'.sysBus.obj = s.sysBus.obj

/-- A write by the bus that is not answered `ok` stores nothing. -/
theorem busWrite_unstored {s : MMUSys RAMBus} {kind : AccessKind} {addr size : Word}
    {buffer : List Byte} :
    Sat s (busWrite kind addr size buffer)
      (fun fb s' => fb ≠ .ok → s'.sysBus.obj = s.sysBus.obj) (fun _ _ => True) :=
  busCall_sat (fun _ _ h hfb => RAMBus.write_refused h hfb) fun _ _ _ => trivial

/-- A read of the bus stores in no device. -/
theorem busRead_obj {s : MMUSys RAMBus} {kind : AccessKind} {addr size : Word}
    {buffer : List Byte} :
    Sat s (busRead kind addr size buffer) (fun _ s' => s'.sysBus.obj = s.sysBus.obj)
      (fun _ _ => True) :=
  busCall_sat (fun _ _ h => by simpa only [h, Run.final] using RAMBus.read_obj s.sysBus addr size buffer)
    fun _ _ _ => trivial

/-- A write that is refused stores nothing, so its fault does not either. -/
theorem writeOutcome_unstored {s s' : MMUSys RAMBus} {fb : FuncReturnFeedback}
    {fault : ExecFeedbackCode} {value : Word} (h : fb ≠ .ok → s'.sysBus.obj = s.sysBus.obj) :
    Unstored s (MemOp.outcome (if fb = .ok then .ok else fault) value) s' := by
  intro cause hr
  refine h fun hfb => ?_
  rw [if_pos hfb] at hr
  cases hr

/-- An access that fails stores nothing. -/
theorem access_unstored (env : MMUEnv) (bare : Bool) (paddr : Word) (op : MemOp)
    (s : MMUSys RAMBus) :
    Sat s (op.access env bare paddr) (Unstored s) (fun _ _ => True) := by
  cases op with
  | load addr size signed =>
      exact .bind (busRead_obj.mono (fun r s' h => .pure fun _ _ => h) fun _ _ h => h)
  | store addr size data =>
      exact .bind (busWrite_unstored.mono (fun fb s' h => .pure (writeOutcome_unstored h))
        fun _ _ h => h)
  | loadReserved addr size =>
      refine .bind (.bind (MMUSys.onMMU_sat (.modify ?_)))
      refine .bind (busRead_obj.mono (fun r s' h => ?_) fun _ _ h => h)
      exact .pure (.pure fun _ _ => h)
  | storeConditional addr size data =>
      refine .bind (.bind (.get (.ite (fun _ => ?_) fun _ => ?_)))
      · exact .bind (MMUSys.onMMU_sat (.modify (.pure (.pure fun _ _ => rfl))))
      · refine .bind (MMUSys.onMMU_sat (.modify ?_))
        refine .bind (busWrite_unstored.mono (fun fb s' h => ?_) fun _ _ h => h)
        exact .pure (.pure (writeOutcome_unstored h))
  | amo op addr size src =>
      refine .bind (.bind (busRead_obj.mono (fun r s' h => ?_) fun _ _ h => h))
      refine .ite (fun _ => .pure (.pure fun _ _ => h)) fun _ => ?_
      dsimp only
      split
      · exact .throw trivial
      · refine .bind (busWrite_unstored.mono (fun fb s'' h' => ?_) fun _ _ h => h)
        refine .pure (.pure fun cause hr => ?_)
        refine (h' fun hfb => ?_).trans h
        rw [if_pos (decide_eq_true hfb)] at hr
        cases hr

/-- A data access that ends in a cause stores nothing. -/
theorem perform_unstored (env : MMUEnv) (op : MemOp) (s : MMUSys RAMBus) :
    Sat s (op.perform env) (Unstored s) (fun _ _ => True) := by
  refine MemOp.perform_sat (T := fun _ s' => s'.sysBus.obj = s.sysBus.obj) (fun _ => ?_)
    (fun _ _ => rfl) (fun _ _ _ h _ => fun _ _ => h) (fun _ _ _ _ => trivial)
    (fun _ => access_unstored env true op.addr op s) fun i s' _ h _ => ?_
  · exact (MMUSys.getTLBEntry_quiet env op.addr s).mono (fun _ _ h => RAMBus.reads_obj h.reads)
      fun _ _ _ => trivial
  · refine (access_unstored env false _ op s').mono (fun r s'' hu cause hr => ?_) fun _ _ h => h
    exact (hu cause hr).trans h

/-- A step whose access fails stores nothing. -/
theorem FailedAccess.obj {ops : Option (MemOp × BitVec 5)} {env : MMUEnv} {s s' : MMUSys RAMBus}
    (h : FailedAccess ops env s s') : s'.sysBus.obj = s.sysBus.obj := by
  rcases h with rfl | ⟨op, rd, cause, -, hr⟩
  · rfl
  · exact (perform_unstored env op s).ok hr cause rfl

/-! ## No abort is the first assertion of `raiseTrap` -/

section Aborts

variable {β : Type} [MMIOBus β] {P : Abort → Prop}

/-- An assertion aborts at its own site. -/
theorem cassert_abortsIn {σ : Type} {c : Prop} [Decidable c] {site : Abort} (h : P site) :
    AbortsIn P (cassert c site : EStateM Abort σ Unit) := .ite (.pure _) (.throw h)

omit [MMIOBus β] in
/-- A computation on the MMU alone. -/
theorem onMMU_abortsIn {α : Type} {x : EStateM Abort RV64SV39MMU α} (h : AbortsIn P x) :
    AbortsIn P (MMUSys.onMMU (β := β) x) :=
  fun s => MMUSys.onMMU_sat (h s.mmu)

omit [MMIOBus β] in
/-- A call of the bus aborts where the bus does. -/
theorem busCall_abortsIn {α : Type} {kind : AccessKind} {addr size : Word}
    {feedback : α → FuncReturnFeedback} {call : EStateM Abort β α} (h : AbortsIn P call) :
    AbortsIn P (busCall kind addr size feedback call) :=
  fun s => busCall_sat (fun _ _ _ => trivial) fun _ _ hr => (h s.sysBus).error hr

/-- The lookup aborts at its one assertion. -/
theorem lookupTLB_abortsIn (h : P .tlbUnique) (satp vaddr : Word) :
    AbortsIn P (MMUSys.lookupTLB satp vaddr) := by
  have hscan : ∀ slots ptr, AbortsIn P (RV64SV39MMU.scanTLB satp vaddr slots ptr) := by
    intro slots
    induction slots with
    | nil => exact fun ptr => .pure ptr
    | cons i slots ih =>
        refine fun ptr => .bind .get fun m => .ite ?_ (ih ptr)
        exact .bind (cassert_abortsIn h) fun _ => .bind (.set _) fun _ => ih _
  refine .bind .get fun m => ?_
  repeat
    split
    · exact .pure _
  exact hscan _ _

variable (hread : ∀ addr size buffer,
    AbortsIn P (MMIOBus.paddrReadBuffer addr size buffer : EStateM Abort β _))
  (hwrite : ∀ addr size buffer,
    AbortsIn P (MMIOBus.paddrWriteBuffer addr size buffer : EStateM Abort β _))
  (hsite : ∀ site ∈ [Abort.fetchAlign, .canonical, .tlbUnique, .pteRead, .pageSize, .amoOp], P site)

include hread hsite

/-- A translation aborts at the assertions of the walk and the lookup. -/
theorem getTLBEntry_abortsIn (env : MMUEnv) (vaddr : Word) :
    AbortsIn P (MMUSys.getTLBEntry (β := β) env vaddr) := by
  have hpte : ∀ table vpn, AbortsIn P (MMUSys.readPTE (β := β) env table vpn) := fun _ _ =>
    .bind (busCall_abortsIn (hread _ _ _)) fun _ =>
      .bind (cassert_abortsIn (hsite _ (by decide))) fun _ => .pure _
  have hwalk : AbortsIn P (MMUSys.pageTableWalk (β := β) env vaddr) := by
    refine .bind (hpte _ _) fun _ => .ite (.pure _) (.ite (.pure _) ?_)
    refine .bind (hpte _ _) fun _ => .ite (.pure _) (.ite (.pure _) ?_)
    exact .bind (hpte _ _) fun _ => .ite (.pure _) (.pure _)
  refine .bind (cassert_abortsIn (hsite _ (by decide))) fun _ => ?_
  refine .bind (onMMU_abortsIn (lookupTLB_abortsIn (hsite _ (by decide)) _ _)) fun r => ?_
  cases r with
  | some i => exact .pure _
  | none =>
      refine .ite (.pure _) (.bind hwalk fun leaf => ?_)
      cases leaf with
      | none => exact .pure _
      | some leaf => exact .bind (onMMU_abortsIn (.modifyGet _)) fun _ => .pure _

/-- A fetch aborts there, and where it is misaligned. -/
theorem vaddrInstFetch_abortsIn (env : MMUEnv) (begin_addr size : Word) (buffer : List Byte) :
    AbortsIn P (MMUSys.vaddrInstFetch (β := β) env begin_addr size buffer) := by
  have hat : ∀ addr size buffer,
      AbortsIn P (MMUSys.readAt (β := β) .fetch addr size buffer) := fun _ _ _ =>
    .bind (busCall_abortsIn (hread _ _ _)) fun _ => .pure _
  have hwhole : ∀ addr size buffer,
      AbortsIn P (MMUSys.instFetchWhole (β := β) env addr size buffer) := by
    intro addr size buffer
    refine .bind (cassert_abortsIn (hsite _ (by decide))) fun _ => .ite (hat _ _ _) ?_
    refine .bind (fun s => pagedAddr_sat (T := fun _ _ => True)
      (fun _ => getTLBEntry_abortsIn hread hsite env addr s) (fun _ => trivial)
      (fun _ _ => trivial) (fun _ _ _ _ _ => trivial) (fun _ _ _ _ => hsite _ (by decide))
      fun _ _ _ _ => trivial) fun r => ?_
    cases r with
    | error fault => exact .pure _
    | ok paddr => exact hat _ _ _
  refine .ite (.bind (hwhole _ _ _) fun r => ?_) (hwhole _ _ _)
  exact .ite (.pure _) (.bind (hwhole _ _ _) fun _ => .pure _)

include hwrite

omit hsite in
/-- An access aborts where the bus does, or at the default of the operation switch. -/
theorem access_abortsIn (env : MMUEnv) (bare : Bool) (paddr : Word) (op : MemOp)
    (hamo : ∀ f addr size src, op = .amo f addr size src → f = .lr ∨ f = .sc → P .amoOp) :
    AbortsIn P (op.access (β := β) env bare paddr) := by
  cases op with
  | load addr size signed => exact .bind (busCall_abortsIn (hread _ _ _)) fun _ => .pure _
  | store addr size data => exact .bind (busCall_abortsIn (hwrite _ _ _)) fun _ => .pure _
  | loadReserved addr size =>
      refine .bind (.bind (onMMU_abortsIn (.modifyGet _)) fun _ => ?_) fun _ => .pure _
      exact .bind (busCall_abortsIn (hread _ _ _)) fun _ => .pure _
  | storeConditional addr size data =>
      refine .bind (.bind .get fun s => .ite ?_ ?_) fun _ => .pure _
      · exact .bind (onMMU_abortsIn (.modifyGet _)) fun _ => .pure _
      · refine .bind (onMMU_abortsIn (.modifyGet _)) fun _ => ?_
        exact .bind (busCall_abortsIn (hwrite _ _ _)) fun _ => .pure _
  | amo f addr size src =>
      refine .bind (.bind (busCall_abortsIn (hread _ _ _)) fun r => .ite (.pure _) ?_)
        fun _ => .pure _
      dsimp only
      split
      · rename_i hnone
        refine .throw (hamo f addr size src rfl ?_)
        cases f <;> first | exact .inl rfl | exact .inr rfl | cases hnone
      · exact .bind (busCall_abortsIn (hwrite _ _ _)) fun _ => .pure _

/-- A data access aborts at these sites and those of its translation. -/
theorem perform_abortsIn (env : MMUEnv) (op : MemOp) : AbortsIn P (op.perform (β := β) env) := by
  have haccess (bare : Bool) (paddr : Word) : AbortsIn P (op.access (β := β) env bare paddr) :=
    access_abortsIn hread hwrite env bare paddr op fun _ _ _ _ _ _ => hsite _ (by decide)
  exact fun s => MemOp.perform_sat (T := fun _ _ => True)
    (fun _ => getTLBEntry_abortsIn hread hsite env op.addr s) trivial (fun _ _ _ _ _ => trivial)
    (fun _ _ _ _ => hsite _ (by decide)) (fun _ => haccess true op.addr s)
    fun _ s' _ _ _ => haccess false _ s'

end Aborts

/-! ## The step -/

/-- An instruction that retires enters no trap. -/
theorem Retires.trapLog {β : Type} [MMIOBus β] {inst : BitVec 32} {m m' : Machine β}
    {flags : ExecFlags} (h : Retires inst m flags m') : m'.core.trapLog = m.core.trapLog := by
  cases h with
  | set rd value => rw [RV64Core.setGPR_eq]
  | jump rd link npc =>
      rw [RV64Core.setGPR_eq]
      rfl
  | mem op rd value s hr => rw [RV64Core.setGPR_eq]
  | csr a rd value old c hperm hwrite hc =>
      rw [RV64Core.setGPR_eq]
      exact (RV64Core.csrWriteCase_frame hc).trapLog
  | mret hmode => rfl
  | sret hperm => rfl
  | sfence vaddr asid hperm => rfl

/-- What a trapping step leaves alone, and the `epc` of the mode it ends in. -/
structure Precise (m m' : Machine RAMBus) : Prop where
  once : m'.core.trapLog.length = 1
  GPR : m'.core.GPR = m.core.GPR
  ram : ∀ h, (m'.mem.sysBus.obj h).dev.memData = (m.mem.sysBus.obj h).dev.memData
  minstret : m'.core.minstret = m.core.minstret
  epc : (m'.core.nextPrivMode = .sMode ∧
      m'.core.csrSExceptionPC = m.core.currentProgramCounter) ∨
    (m'.core.nextPrivMode = .mMode ∧ m'.core.csrMExceptionPC = m.core.currentProgramCounter)

/-- A trapping step on RAM is precise, and no step fails the assertion that
`raiseTrap` begins with. -/
theorem exceptions_precise (m : Machine RAMBus) :
    (∀ e m', stepCoreAPI.run m = .error e m' → e ≠ .needTrap) ∧
      ∀ fb m', stepCoreAPI.run m = .ok fb m' → m'.core.trapLog ≠ [] → Precise m m' := by
  have hsite : ∀ site ∈ [Abort.fetchAlign, .canonical, .tlbUnique, .pteRead, .pageSize, .amoOp],
      site ≠ .needTrap := by decide
  have heffect := stepCoreAPI_effect m
  refine ⟨fun e m' h => ?_, fun fb m' h ht => ?_⟩
  · rw [h] at heffect
    cases heffect with
    | aborts e c s s' hs hs' he => exact he
    | fetchAborts e s hr =>
        exact (vaddrInstFetch_abortsIn (RAMBus.read_aborts (by decide)) hsite _ _ _ _ _).error hr
    | memAborts op rd e s s' hs hop hr =>
        exact (perform_abortsIn (RAMBus.read_aborts (by decide)) (RAMBus.write_aborts (by decide))
          hsite _ op s).error hr
  · rw [h] at heffect
    rcases heffect.cases_ok with
      ⟨cause, tval, comp, flags, s, s', hs, hs', rfl⟩ | ⟨inst, flags, s, m₁, -, -, hr, rfl⟩
    · obtain ⟨hentered, hlog⟩ := trapped_trapEntered m cause tval comp flags
      have hobj : s'.sysBus.obj = m.mem.sysBus.obj :=
        hs'.obj.trans (RAMBus.reads_obj hs.quiet.reads)
      refine
        { once := by rw [hlog]; rfl
          GPR := m.begun.trapped_GPR cause tval
          ram := fun h => by rw [congrFun hobj h]
          minstret := ?_
          epc := hentered.imp (fun h => ⟨h.1, h.2.2⟩) fun h => ⟨h.1, h.2.2⟩ }
      rcases m.begun.trapped_cases cause tval with ⟨-, h⟩ | ⟨-, h⟩ <;> rw [h] <;> rfl
    · exact absurd hr.trapLog ht

/-- An interrupt in place of the instruction. -/
theorem exceptions_precise_timer :
    ∃ m', stepCoreAPI.run timerPending = .ok .ok m' ∧ Precise timerPending m' :=
  have h : stepCoreAPI.run timerPending = .ok .ok (Run.final (stepCoreAPI.run timerPending)) := by
    rfl
  ⟨_, h, (exceptions_precise timerPending).2 _ _ h (by decide)⟩

end MEmu
