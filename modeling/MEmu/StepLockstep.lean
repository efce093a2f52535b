import MEmu.Assertions
import MEmu.Lib.Lockstep

/-!
# Two machines in step

Two machines with one core, and memories that a relation ties together.  Of a step only
the fetch and the data access look at the memory, and only they and a fence change it.  So a
step takes the two machines to one core again where its fetch ends alike in both and its
access does (`stepCoreAPI_lock`).  An access in turn is a translation and what is done at
the physical address (`MemOp.perform_lock`).  The machines may be on different buses.
-/

namespace MEmu

open Machine (onCore onMem)
open Run (Sat Lock)

variable {β γ : Type}

/-! ## Computations that do not look at the memory -/

/-- One result, one core, and memories in `R`. -/
structure InStep {α : Type} (R : MMUSys β → MMUSys γ → Prop) (a a' : α) (m : Machine β)
    (m' : Machine γ) : Prop where
  result : a = a'
  core : m.core = m'.core
  mem : R m.mem m'.mem

section Rules

variable {α : Type} {m : Machine β} {m' : Machine γ}

theorem onCore_lock {x : CoreM α} {Q : α → α → Machine β → Machine γ → Prop}
    (hcore : m.core = m'.core)
    (h : Sat m.core x (fun a c => Q a a { m with core := c } { m' with core := c })
      fun _ _ => True) : Lock m m' (onCore x) (onCore x) Q := by
  refine .part (fun a c hr => by rw [Machine.run_onCore, hr])
    (fun e c hr => by rw [Machine.run_onCore, hr]) (fun a c hr => by rw [Machine.run_onCore, hr])
    (fun e c hr => by rw [Machine.run_onCore, hr]) ?_
  rw [← hcore]
  exact .self h

theorem onMem_lock {α' : Type} {x : MMUEnv → MMUM β α} {y : MMUEnv → MMUM γ α'}
    {Q : α → α' → Machine β → Machine γ → Prop} (hcore : m.core = m'.core)
    (h : Lock m.mem m'.mem (x m.core.mmuEnv) (y m.core.mmuEnv)
      fun a a' s s' => Q a a' { m with mem := s } { m' with mem := s' }) :
    Lock m m' (onMem x) (onMem y) Q := by
  refine .part (fun a s hr => by rw [Machine.run_onMem, hr])
    (fun e s hr => by rw [Machine.run_onMem, hr]) (fun a s hr => by rw [Machine.run_onMem, hr])
    (fun e s hr => by rw [Machine.run_onMem, hr]) ?_
  obtain ⟨c, s⟩ := m
  obtain ⟨c', s'⟩ := m'
  obtain rfl : c = c' := hcore
  exact h

end Rules

/-- `x` and `y` keep machines in step. -/
def Together {α : Type} (R : MMUSys β → MMUSys γ → Prop) (x : Exec β α) (y : Exec γ α) : Prop :=
  ∀ m m', m.core = m'.core → R m.mem m'.mem → Lock m m' x y (InStep R)

namespace Together

variable {α δ : Type} {R : MMUSys β → MMUSys γ → Prop}

theorem pure (a : α) : Together R (pure a : Exec β α) (pure a) :=
  fun _ _ hcore hmem => .pure ⟨rfl, hcore, hmem⟩

theorem bind {x : Exec β δ} {y : Exec γ δ} {f : δ → Exec β α} {g : δ → Exec γ α}
    (h : Together R x y) (hf : ∀ a, Together R (f a) (g a)) : Together R (x >>= f) (y >>= g) := by
  intro m m' hcore hmem
  refine .bind ((h m m' hcore hmem).mono fun a a' n n' hn => ?_)
  obtain ⟨rfl, hcore, hmem⟩ := hn
  exact hf a n n' hcore hmem

theorem ite {c : Prop} [Decidable c] {x₁ x₂ : Exec β α} {y₁ y₂ : Exec γ α}
    (ht : Together R x₁ y₁) (hf : Together R x₂ y₂) :
    Together R (if c then x₁ else x₂) (if c then y₁ else y₂) :=
  fun m m' hcore hmem => .ite (fun _ => ht m m' hcore hmem) fun _ => hf m m' hcore hmem

theorem onCore (x : CoreM α) : Together R (onCore (β := β) x) (Machine.onCore x) :=
  fun _ _ hcore hmem => onCore_lock hcore (.intro (fun _ _ _ => ⟨rfl, rfl, hmem⟩) fun _ _ _ => trivial)

end Together

variable [MMIOBus β] [MMIOBus γ] {R R' : MMUSys β → MMUSys γ → Prop}

/-- An action that is no access and no fence does not look at the memory. -/
theorem Action.exec_together {a : Action} (ha : ∀ op rd, a ≠ .access op rd)
    (ha' : ∀ vaddr asid, a ≠ .sfence vaddr asid) :
    Together R (a.exec (β := β)) (a.exec (β := γ)) := by
  have hset (rd : BitVec 5) (value : Word) :
      Together R (setInto (β := β) rd value) (setInto rd value) :=
    .bind (.onCore _) fun _ => .pure _
  have hjump (npc : Word) : Together R (jumpTo (β := β) npc) (jumpTo npc) :=
    .bind (.onCore _) fun _ => .pure _
  have hraise (npc : Word) (flags : ExecFlags) : Together R
      (do raiseException (β := β) .instrMisalign npc; pure flags)
      (do raiseException .instrMisalign npc; pure flags) :=
    .bind (.onCore _) fun _ => .pure _
  cases a with
  | illegal => exact .pure _
  | set rd value => exact hset rd value
  | jump npc => exact hjump npc
  | link rd ret npc => exact .ite (hraise npc _) (.bind (.onCore _) fun _ => hjump npc)
  | branch npc => exact .ite (hraise npc _) (hjump npc)
  | access op rd => exact absurd rfl (ha op rd)
  | csr a value old rd => exact .bind (.onCore _) fun _ => .ite (hset rd old) (.pure _)
  | ecall | ebreak => exact .bind (.onCore _) fun _ => .pure _
  | mret | sret => exact .bind (.onCore _) fun _ => .ite (.pure _) (.pure _)
  | sfence vaddr asid => exact absurd rfl (ha' vaddr asid)

/-! ## One step -/

/-- The address and the address space that an action fences. -/
def fenceOf : Action → Option (Word × Word)
  | .sfence vaddr asid => some (vaddr, asid)
  | _ => none

theorem fenceOf_eq_none {a : Action} (h : ∀ vaddr asid, a ≠ .sfence vaddr asid) :
    fenceOf a = none := by
  cases a with
  | sfence vaddr asid => exact absurd rfl (h vaddr asid)
  | _ => rfl

/-- What a step fences. -/
def Machine.fence (m : Machine β) : Option (Word × Word) :=
  match fetchInst.run m with
  | .ok (some inst) _ => fenceOf (action inst m.begun)
  | _ => none

section Step

variable {m : Machine β} {m' : Machine γ}

/-- The execute part, from what the access of the instruction does and what a fence does. -/
theorem execute_lock {inst : BitVec 32} (hcore : m.core = m'.core)
    (hmem : (∀ vaddr asid, action inst m.core ≠ .sfence vaddr asid) → R' m.mem m'.mem)
    (hop : ∀ op rd, memOpOf inst m.core = some (op, rd) →
      Lock m.mem m'.mem (op.perform m.core.mmuEnv) (op.perform m.core.mmuEnv)
        fun r r' s s' => r = r' ∧ R' s s')
    (hfence : ∀ vaddr asid, action inst m.core = .sfence vaddr asid →
      R' { m.mem with mmu := m.mem.mmu.flushTLBSfenceVma vaddr asid }
        { m'.mem with mmu := m'.mem.mmu.flushTLBSfenceVma vaddr asid }) :
    Lock m m' (execute inst) (execute inst) (InStep R') := by
  refine .congr (run_execute inst m) (run_execute inst m') ?_
  rw [← hcore]
  have hdec := action_decodes inst m.core
  by_cases hacc : ∃ op rd, action inst m.core = .access op rd
  · obtain ⟨op, rd, ha⟩ := hacc
    rw [ha] at hdec ⊢
    cases hdec with
    | access _ _ hmemop =>
        refine .bind (onMem_lock hcore ((hop op rd hmemop).mono ?_))
        rintro r _ s s' ⟨rfl, hs⟩
        have hafter (x : CoreM Unit) : Together R' (do onCore (β := β) x; pure ExecFlags.plain)
            (do onCore x; pure ExecFlags.plain) := .bind (.onCore x) fun _ => .pure _
        cases r with
        | ok value => exact hafter _ ⟨m.core, s⟩ ⟨m'.core, s'⟩ hcore hs
        | error cause => exact hafter _ ⟨m.core, s⟩ ⟨m'.core, s'⟩ hcore hs
  by_cases hsf : ∃ vaddr asid, action inst m.core = .sfence vaddr asid
  · obtain ⟨vaddr, asid, ha⟩ := hsf
    rw [ha] at hdec ⊢
    cases hdec with
    | sfence _ _ hperm =>
        have hrun := run_illegalUnless_ok (run_sfenceVma (m := m) vaddr asid hperm)
        have hrun' := run_illegalUnless_ok (run_sfenceVma (m := m') vaddr asid (hcore ▸ hperm))
        rw [Lock, Action.exec, Action.exec, hrun, hrun']
        exact .ok ⟨rfl, hcore, hfence vaddr asid ha⟩
  · have hsf (vaddr asid : Word) : action inst m.core ≠ .sfence vaddr asid :=
      fun ha => hsf ⟨vaddr, asid, ha⟩
    exact Action.exec_together (fun op rd ha => hacc ⟨op, rd, ha⟩) hsf m m' hcore (hmem hsf)

/-- The fetch part, from what the fetch does. -/
theorem fetchInst_lock (hcore : m.core = m'.core) (hmem : R m.clearLogs.mem m'.clearLogs.mem)
    (hfetch : m.Fetches → Lock m.clearLogs.mem m'.clearLogs.mem
      (MMUSys.vaddrInstFetch m.begun.mmuEnv m.begun.currentProgramCounter 4 (Bytes.ofWord 4 0))
      (MMUSys.vaddrInstFetch m.begun.mmuEnv m.begun.currentProgramCounter 4 (Bytes.ofWord 4 0))
      fun r r' s s' => r = r' ∧ R s s') : Lock m m' fetchInst fetchInst (InStep R) := by
  have hpre : Sat m.clearLogs.core preExec
      (fun _ c => (m.begun.intTaken = none ∧ c = m.begun) ∨ c.needTrap = true)
      fun _ _ => True := by
    refine .intro (fun _ c hr => ?_) fun _ _ _ => trivial
    rw [run_preExec, ← Machine.begun.eq_1] at hr
    cases htaken : m.begun.intTaken with
    | none =>
        rw [htaken] at hr
        cases hr
        exact .inl ⟨rfl, rfl⟩
    | some int_type =>
        rw [htaken] at hr
        rcases raiseTrap_cases (needTrap_begun m) (Cause.int int_type) 0 with ht | ⟨e, c', ht, -⟩ <;>
          simp only [ht] at hr <;> cases hr
        exact .inr (needTrap_trapped _ _ _)
  obtain ⟨c, s⟩ := m
  obtain ⟨c', s'⟩ := m'
  obtain rfl : c = c' := hcore
  refine .bind (.modify (.bind (onCore_lock rfl (hpre.mono (fun _ c' hc => ?_) fun _ _ h => h))))
  refine .bind (.get ?_)
  have hnone : Together R (pure (none : Option (BitVec 32)) : Exec β _) (pure none) := .pure none
  have hraise (cause tval : Word) : Together R
      (do onCore (β := β) (raiseTrap cause tval); pure (none : Option (BitVec 32)))
      (do onCore (raiseTrap cause tval); pure none) := .bind (.onCore _) fun _ => hnone
  refine .ite (fun _ => hnone _ _ rfl hmem) fun hn => ?_
  rcases hc with ⟨htaken, rfl⟩ | hc
  · refine .ite (fun _ => hraise _ _ _ _ rfl hmem) fun halign => ?_
    refine .bind (onMem_lock rfl ((hfetch ⟨htaken, not_not.mp halign⟩).mono ?_))
    rintro ⟨fb, buf⟩ _ t t' ⟨rfl, ht⟩
    refine .ite (fun _ => .bind ?_) fun _ => .pure ⟨rfl, rfl, ht⟩
    refine .ite (fun _ => .pure ?_) fun _ => .throw _
    exact hraise _ _ _ _ rfl ht
  · exact absurd hc hn

omit [MMIOBus γ] in
theorem Machine.fence_of_fetch {m m₁ : Machine β} {inst : BitVec 32}
    (h : fetchInst.run m = .ok (some inst) m₁) : m.fence = fenceOf (action inst m.begun) := by
  rw [fence, h]

/-- Two machines with one core step alike where the fetch does, and the access of the
instruction does on what the fetch leaves. -/
theorem stepCoreAPI_lock (hcore : m.core = m'.core) (hmem : R m.clearLogs.mem m'.clearLogs.mem)
    (hfetch : m.Fetches → Lock m.clearLogs.mem m'.clearLogs.mem
      (MMUSys.vaddrInstFetch m.begun.mmuEnv m.begun.currentProgramCounter 4 (Bytes.ofWord 4 0))
      (MMUSys.vaddrInstFetch m.begun.mmuEnv m.begun.currentProgramCounter 4 (Bytes.ofWord 4 0))
      fun r r' s s' => r = r' ∧ R s s')
    (hidle : m.fence = none → ∀ s s', R s s' → R' s s')
    (hop : ∀ op rd, m.memOp = some (op, rd) → ∀ s s', R s s' →
      Lock s s' (op.perform m.begun.mmuEnv) (op.perform m.begun.mmuEnv)
        fun r r' t t' => r = r' ∧ R' t t')
    (hfence : ∀ vaddr asid, m.fence = some (vaddr, asid) → ∀ s s', R s s' →
      R' { s with mmu := s.mmu.flushTLBSfenceVma vaddr asid }
        { s' with mmu := s'.mmu.flushTLBSfenceVma vaddr asid }) :
    Lock m m' stepCoreAPI stepCoreAPI (InStep R') := by
  have hexit (inst : BitVec 32) (comp : Bool) (flags : ExecFlags) :
      Together R' (onCore (β := β) (stepExit inst comp flags))
        (onCore (stepExit inst comp flags)) := .onCore _
  have hrun : Sat m (fetchInst (β := β)) (fun r n => fetchInst.run m = .ok r n) fun _ _ => True :=
    .intro (fun _ _ hr => hr) fun _ _ _ => trivial
  refine .bind (((fetchInst_lock hcore hmem hfetch).with hrun Sat.trivial).mono ?_)
  rintro r _ n n' ⟨⟨rfl, hcore', hmem'⟩, hr, -⟩
  cases r with
  | none =>
      have hnone : m.fence = none := by rw [Machine.fence, hr]
      exact hexit _ _ _ n n' hcore' (hidle hnone _ _ hmem')
  | some inst =>
      have hfence' := Machine.fence_of_fetch hr
      have hmemop := Machine.memOp_of_fetch hr
      obtain ⟨s, -, rfl⟩ := fetchInst_ok hr
      have hexec : Lock ⟨m.begun, s⟩ n' (execute inst) (execute inst) (InStep R') := by
        refine execute_lock hcore' (fun hsf => ?_) (fun op rd h => ?_) fun vaddr asid ha => ?_
        · refine hidle ?_ s n'.mem hmem'
          rw [hfence']
          exact fenceOf_eq_none hsf
        · exact hop op rd (hmemop.trans h) s n'.mem hmem'
        · refine hfence vaddr asid ?_ s n'.mem hmem'
          rw [hfence']
          exact congrArg fenceOf ha
      refine .bind (hexec.mono ?_)
      rintro flags _ n₁ n₁' ⟨rfl, hcore'', hmem''⟩
      exact hexit _ _ _ n₁ n₁' hcore'' hmem''

end Step

/-! ## One access -/

omit [MMIOBus β] [MMIOBus γ] in
/-- Calls of the two buses that end alike. -/
theorem busCall_lock {α α' : Type} {s : MMUSys β} {s' : MMUSys γ} {kind : AccessKind}
    {addr size : Word} {feedback : α → FuncReturnFeedback} {feedback' : α' → FuncReturnFeedback}
    {call : EStateM Abort β α} {call' : EStateM Abort γ α'}
    {Q : α → α' → MMUSys β → MMUSys γ → Prop}
    (h : Lock s.sysBus s'.sysBus call call' fun a a' b b' => Q a a'
      { s with
        sysBus := b
        busLog := s.busLog ++ [⟨kind, addr, size, decide (feedback a = .ok)⟩] }
      { s' with
        sysBus := b'
        busLog := s'.busLog ++ [⟨kind, addr, size, decide (feedback' a' = .ok)⟩] }) :
    Lock s s' (busCall kind addr size feedback call) (busCall kind addr size feedback' call') Q := by
  unfold Lock at h ⊢
  rw [run_busCall, run_busCall]
  generalize call.run s.sysBus = r at h ⊢
  generalize call'.run s'.sysBus = r' at h ⊢
  cases h with
  | ok h => exact .ok h
  | error e b b' => exact .error e _ _

omit [MMIOBus β] [MMIOBus γ] in
theorem MMUSys.onMMU_lock {α α' : Type} {s : MMUSys β} {s' : MMUSys γ}
    {x : EStateM Abort RV64SV39MMU α} {y : EStateM Abort RV64SV39MMU α'}
    {Q : α → α' → MMUSys β → MMUSys γ → Prop}
    (h : Lock s.mmu s'.mmu x y fun a a' m m' => Q a a' { s with mmu := m } { s' with mmu := m' }) :
    Lock s s' (onMMU x) (onMMU y) Q :=
  .part (fun a m hr => by rw [run_onMMU, hr]) (fun e m hr => by rw [run_onMMU, hr])
    (fun a m hr => by rw [run_onMMU, hr]) (fun e m hr => by rw [run_onMMU, hr]) h

omit [MMIOBus β] [MMIOBus γ] in
theorem cassert_lock {σ τ : Type} {s : σ} {s' : τ} {c : Prop} [Decidable c] {site : Abort}
    {Q : Unit → Unit → σ → τ → Prop} (h : c → Q () () s s') :
    Lock s s' (cassert c site) (cassert c site) Q :=
  .ite (fun hc => .pure (h hc)) fun _ => .throw site

/-- Buses that `B` ties together, and one reservation. -/
structure Linked (B : β → γ → Prop) (s : MMUSys β) (s' : MMUSys γ) : Prop where
  bus : B s.sysBus s'.sysBus
  reservation : s.mmu.reservation = s'.mmu.reservation

/-- Reads of `size` bytes at `addr` find the same on the two buses. -/
def ReadsAlike (B : β → γ → Prop) (addr size : Word) : Prop :=
  ∀ b b' buffer, B b b' → Lock b b' (MMIOBus.paddrReadBuffer addr size buffer)
    (MMIOBus.paddrReadBuffer addr size buffer) fun r r' b b' => r = r' ∧ B b b'

/-- Writes of `size` bytes at `addr` are answered alike on the two buses. -/
def WritesAlike (B : β → γ → Prop) (addr size : Word) : Prop :=
  ∀ b b' buffer, B b b' → Lock b b' (MMIOBus.paddrWriteBuffer addr size buffer)
    (MMIOBus.paddrWriteBuffer addr size buffer) fun r r' b b' => r = r' ∧ B b b'

section Access

variable {B : β → γ → Prop} {s : MMUSys β} {s' : MMUSys γ} {addr size : Word}

theorem busRead_lock (h : ReadsAlike B addr size) (kind : AccessKind) (buffer : List Byte)
    (hs : B s.sysBus s'.sysBus) :
    Lock s s' (busRead kind addr size buffer) (busRead kind addr size buffer)
      fun r r' t t' => r = r' ∧ B t.sysBus t'.sysBus ∧ t.mmu = s.mmu ∧ t'.mmu = s'.mmu :=
  busCall_lock ((h _ _ buffer hs).mono fun _ _ _ _ hr => ⟨hr.1, hr.2, rfl, rfl⟩)

theorem busWrite_lock (h : WritesAlike B addr size) (kind : AccessKind) (buffer : List Byte)
    (hs : B s.sysBus s'.sysBus) :
    Lock s s' (busWrite kind addr size buffer) (busWrite kind addr size buffer)
      fun r r' t t' => r = r' ∧ B t.sysBus t'.sysBus ∧ t.mmu = s.mmu ∧ t'.mmu = s'.mmu :=
  busCall_lock ((h _ _ buffer hs).mono fun _ _ _ _ hr => ⟨hr.1, hr.2, rfl, rfl⟩)

namespace MemOp

/-- The operation reads, or writes. -/
def readsBus (op : MemOp) : Prop := ∃ kind ∈ op.kinds, kind.isWrite = false
def writesBus (op : MemOp) : Prop := ∃ kind ∈ op.kinds, kind.isWrite = true

/-- What an operation does at a physical address. -/
theorem access_lock (env : MMUEnv) (bare : Bool) (paddr : Word) (op : MemOp)
    (hread : op.readsBus → ReadsAlike B paddr op.size)
    (hwrite : op.writesBus → WritesAlike B paddr op.size) (hs : Linked B s s') :
    Lock s s' (op.access env bare paddr) (op.access env bare paddr)
      fun r r' t t' => r = r' ∧ Linked B t t' := by
  have hkept {t : MMUSys β} {t' : MMUSys γ} (hb : B t.sysBus t'.sysBus) (ht : t.mmu = s.mmu)
      (ht' : t'.mmu = s'.mmu) : Linked B t t' := ⟨hb, by rw [ht, ht', hs.reservation]⟩
  cases op with
  | load addr size signed =>
      refine .bind ((busRead_lock (hread ⟨_, List.mem_singleton.mpr rfl, rfl⟩) _ _ hs.bus).mono ?_)
      rintro r _ t t' ⟨rfl, hb, ht, ht'⟩
      exact .pure ⟨rfl, hkept hb ht ht'⟩
  | store addr size data =>
      refine .bind ((busWrite_lock (hwrite ⟨_, List.mem_singleton.mpr rfl, rfl⟩) _ _ hs.bus).mono ?_)
      rintro fb _ t t' ⟨rfl, hb, ht, ht'⟩
      exact .pure ⟨rfl, hkept hb ht ht'⟩
  | loadReserved addr size =>
      refine .bind (.bind (MMUSys.onMMU_lock (.modify (.bind ?_))))
      refine .mono (busRead_lock (hread ⟨_, List.mem_singleton.mpr rfl, rfl⟩) _ _ hs.bus) ?_
      rintro r _ t t' ⟨rfl, hb, ht, ht'⟩
      exact .pure (.pure ⟨rfl, hb, by rw [ht, ht']; rfl⟩)
  | storeConditional addr size data =>
      have hfields := hs.reservation
      simp only [RV64SV39MMU.reservation, Prod.mk.injEq] at hfields
      obtain ⟨hvalid, hpa, hsize, hhart⟩ := hfields
      refine .bind (.bind (.get ?_))
      have hlost : MMUSys.reservationLost env addr size s.mmu
          = MMUSys.reservationLost env addr size s'.mmu := by
        rw [MMUSys.reservationLost, MMUSys.reservationLost, hvalid, hpa, hsize, hhart]
      rw [hlost]
      refine .ite (fun _ => .bind (MMUSys.onMMU_lock (.modify (.pure (.pure ⟨rfl, hs.bus, ?_⟩)))))
        fun _ => .bind (MMUSys.onMMU_lock (.modify (.bind ?_)))
      · dsimp only
        rw [hhart]
        split
        · simp only [RV64SV39MMU.reservation, hpa, hsize]
        · exact hs.reservation
      · refine .mono (busWrite_lock (hwrite ⟨_, List.mem_singleton.mpr rfl, rfl⟩) _ _ hs.bus) ?_
        rintro fb _ t t' ⟨rfl, hb, ht, ht'⟩
        refine .pure (.pure ⟨rfl, hb, ?_⟩)
        simp only [ht, ht', RV64SV39MMU.reservation, hpa, hsize, hhart]
  | amo f addr size src =>
      have hread := hread ⟨.amoRead, List.mem_cons_self, rfl⟩
      have hwrite := hwrite ⟨.amoWrite, List.mem_cons_of_mem _ List.mem_cons_self, rfl⟩
      refine .bind (.bind ((busRead_lock hread _ _ hs.bus).mono ?_))
      rintro ⟨feedback, buf⟩ _ t t' ⟨rfl, hb, ht, ht'⟩
      refine .ite (fun _ => .pure (.pure ⟨rfl, hkept hb ht ht'⟩)) fun _ => ?_
      dsimp only
      split
      · exact .throw _
      · refine .bind ((busWrite_lock hwrite _ _ hb).mono ?_)
        rintro fb _ u u' ⟨rfl, hb', hu, hu'⟩
        exact .pure (.pure ⟨rfl, hkept hb' (hu.trans ht) (hu'.trans ht')⟩)

/-- An operation, from its translation and what it does then. -/
theorem perform_lock {R' : MMUSys β → MMUSys γ → Prop} (env : MMUEnv) (op : MemOp)
    {P : Word → Prop} (hfault : R' s s')
    (hbare : env.bareData = true → Lock s s' (op.access env true op.addr)
      (op.access env true op.addr) fun r r' t t' => r = r' ∧ R' t t')
    (hpaged : env.bareData = false → (op.checksAlign = true → op.addr % op.size = 0) →
      Lock s s' (MMUSys.pagedAddr env op.addr op.size op.misalign op.pgfault (op.check env))
        (MMUSys.pagedAddr env op.addr op.size op.misalign op.pgfault (op.check env))
        fun r r' t t' => r = r' ∧ R t t' ∧ ∀ paddr, r = .ok paddr → P paddr)
    (hkeep : ∀ t t', R t t' → R' t t')
    (haccess : ∀ paddr t t', P paddr → R t t' → Lock t t' (op.access env false paddr)
      (op.access env false paddr) fun r r' u u' => r = r' ∧ R' u u') :
    Lock s s' (op.perform env) (op.perform env) fun r r' t t' => r = r' ∧ R' t t' := by
  rw [perform_eq, perform_eq]
  refine .ite (fun _ => .pure ⟨rfl, hfault⟩) fun halign => .ite hbare fun hb => .bind ?_
  have hb : env.bareData = false := Bool.eq_false_iff.mpr hb
  refine (hpaged hb fun hcheck => ?_).mono ?_
  · by_contra hne
    exact halign ⟨hcheck, hne⟩
  · rintro r _ t t' ⟨rfl, ht, hP⟩
    cases r with
    | error fault => exact .pure ⟨rfl, hkeep t t' ht⟩
    | ok paddr => exact haccess paddr t t' (hP paddr rfl) ht

end MemOp

namespace MMUSys

/-- One piece of a fetch, where `P` holds of the physical addresses that are read. -/
theorem instFetchWhole_lock (env : MMUEnv) (begin_addr size : Word) (buffer : List Byte)
    {P : Word → Prop} (hs : R s s') (hbare : env.bareFetch = true → P begin_addr)
    (hpaged : env.bareFetch = false →
      Lock s s' (pagedAddr env begin_addr size .misAlign .pageFault (fetchCheck env))
        (pagedAddr env begin_addr size .misAlign .pageFault (fetchCheck env))
        fun r r' t t' => r = r' ∧ R t t' ∧ ∀ paddr, r = .ok paddr → P paddr)
    (hread : ∀ paddr t t', P paddr → R t t' → Lock t t' (busRead .fetch paddr size buffer)
      (busRead .fetch paddr size buffer) fun r r' u u' => r = r' ∧ R u u') :
    Lock s s' (instFetchWhole env begin_addr size buffer)
      (instFetchWhole env begin_addr size buffer) fun r r' t t' => r = r' ∧ R t t' := by
  have hat (paddr : Word) (t : MMUSys β) (t' : MMUSys γ) (hP : P paddr) (ht : R t t') :
      Lock t t' (readAt .fetch paddr size buffer) (readAt .fetch paddr size buffer)
        fun r r' u u' => r = r' ∧ R u u' := by
    refine .bind ((hread paddr t t' hP ht).mono ?_)
    rintro r _ u u' ⟨rfl, hu⟩
    exact .pure ⟨rfl, hu⟩
  refine .bind (cassert_lock fun _ => .ite (fun hb => hat _ _ _ (hbare hb) hs) fun hb => .bind ?_)
  refine (hpaged (Bool.eq_false_iff.mpr hb)).mono ?_
  rintro r _ t t' ⟨rfl, ht, hP⟩
  cases r with
  | error fault => exact .pure ⟨rfl, ht⟩
  | ok paddr => exact hat paddr t t' (hP paddr rfl) ht

/-- The physical address that an entry gives after its check, or the fault. -/
def entryAddr {φ : Type} (check : SV39TLBEntry → Option φ) (v : Word) (e : SV39TLBEntry) :
    Except φ Word :=
  match check e with
  | some fault => .error fault
  | none => .ok (e.ppa + v % e.pagesize.bytes)

/-- The paged path, from entries that are alike and of which `E` holds. -/
theorem pagedAddr_lock {φ : Type} {env : MMUEnv} {v : Word} {E : SV39TLBEntry → Prop}
    (size : Word) (misalign pgfault : φ) (check : SV39TLBEntry → Option φ) (hs : R s s')
    (hentry : Lock s s' (getTLBEntry env v) (getTLBEntry env v) fun r r' t t' =>
      r.map t.mmu.tlb = r'.map t'.mmu.tlb ∧ R t t' ∧ ∀ e, r.map t.mmu.tlb = some e → E e) :
    Lock s s' (pagedAddr env v size misalign pgfault check)
      (pagedAddr env v size misalign pgfault check) fun r r' t t' => r = r' ∧ R t t' ∧
        ∀ paddr, r = .ok paddr → InPage v size ∧ ∃ e, E e ∧ entryAddr check v e = .ok paddr := by
  refine .ite (fun _ => .pure ⟨rfl, hs, nofun⟩) fun hin => .bind (hentry.mono ?_)
  rintro r r' t t' ⟨heq, ht, hE⟩
  cases r with
  | none =>
      cases r' with
      | none => exact .pure ⟨rfl, ht, nofun⟩
      | some j => cases heq
  | some i =>
      cases r' with
      | none => cases heq
      | some j =>
          have heq : t.mmu.tlb i = t'.mmu.tlb j := Option.some.inj heq
          have hE := hE _ rfl
          refine .bind (.get ?_)
          dsimp only
          rw [← heq]
          cases hc : check (t.mmu.tlb i) with
          | some fault => exact .pure ⟨rfl, ht, nofun⟩
          | none =>
              refine .bind (cassert_lock fun _ => .pure ⟨rfl, ht, ?_⟩)
              rintro paddr ⟨⟩
              refine ⟨not_not.mp hin, _, hE, ?_⟩
              rw [entryAddr, hc]

/-- The pieces in which `VAddr_InstFetch_MMU_API` fetches. -/
def fetchPieces (begin_addr size : Word) : List (Word × Word) :=
  if size = 4 ∧ begin_addr % 4 = 2 then [(begin_addr, 2), (begin_addr + 2, 2)]
  else [(begin_addr, size)]

theorem vaddrInstFetch_lock (env : MMUEnv) (begin_addr size : Word) (buffer : List Byte)
    (hs : R s s') (h : ∀ piece ∈ fetchPieces begin_addr size, ∀ buffer t t', R t t' →
      Lock t t' (instFetchWhole env piece.1 piece.2 buffer)
        (instFetchWhole env piece.1 piece.2 buffer) fun r r' u u' => r = r' ∧ R u u') :
    Lock s s' (vaddrInstFetch env begin_addr size buffer)
      (vaddrInstFetch env begin_addr size buffer) fun r r' t t' => r = r' ∧ R t t' := by
  rw [vaddrInstFetch, vaddrInstFetch]
  refine .ite (fun hsplit => ?_) fun hwhole => ?_
  · rw [fetchPieces, if_pos hsplit] at h
    refine .bind ((h _ List.mem_cons_self _ s s' hs).mono ?_)
    rintro ⟨fb_1, low⟩ _ t t' ⟨rfl, ht⟩
    refine .ite (fun _ => .pure ⟨rfl, ht⟩) fun _ => .bind ?_
    refine (h _ (List.mem_cons_of_mem _ List.mem_cons_self) _ t t' ht).mono ?_
    rintro ⟨fb_2, high⟩ _ u u' ⟨rfl, hu⟩
    exact .pure ⟨rfl, hu⟩
  · rw [fetchPieces, if_neg hwhole] at h
    exact h _ List.mem_cons_self _ s s' hs

end MMUSys

end Access

/-! ## What an access leaves alone -/

/-- The fields of the MMU that translate. -/
def RV64SV39MMU.translation (m : RV64SV39MMU) :
    (TLBIndex → SV39TLBEntry) × (Word → Option TLBIndex) × TLBIndex :=
  (m.tlb, m.tlbGetCache, m.lastSwappedIndex)

/-- An access leaves the TLB as it is. -/
theorem MemOp.access_translation (env : MMUEnv) (bare : Bool) (paddr : Word) (op : MemOp)
    (s : MMUSys β) :
    Sat s (op.access env bare paddr) (fun _ t => t.mmu.translation = s.mmu.translation)
      (fun _ t => t.mmu.translation = s.mmu.translation) := by
  cases op with
  | load | store => exact .bind (busCall_sat (fun _ _ _ => .pure rfl) fun _ _ _ => rfl)
  | loadReserved addr size =>
      refine .bind (.bind (MMUSys.onMMU_sat (.modify (.bind ?_))))
      exact busCall_sat (fun _ _ _ => .pure (.pure rfl)) fun _ _ _ => rfl
  | storeConditional addr size data =>
      refine .bind (.bind (.get (.ite (fun _ => .bind (MMUSys.onMMU_sat (.modify ?_)))
        fun _ => .bind (MMUSys.onMMU_sat (.modify (.bind ?_))))))
      · refine .pure (.pure ?_)
        dsimp only
        split <;> rfl
      · exact busCall_sat (fun _ _ _ => .pure (.pure rfl)) fun _ _ _ => rfl
  | amo f addr size src =>
      refine .bind (.bind (busCall_sat (fun r b _ => ?_) fun _ _ _ => rfl))
      refine .ite (fun _ => .pure (.pure rfl)) fun _ => ?_
      dsimp only
      split
      · exact .throw rfl
      · exact .bind (busCall_sat (fun _ _ _ => .pure (.pure rfl)) fun _ _ _ => rfl)

end MEmu
