import MEmu.AtomicAlign
import MEmu.FetchHalves
import MEmu.RamAccess
import MEmu.StorePaths

/-!
# Where there is no memory

An access to a physical address of no device ends in a fault, and the kind of the access should
say which.  The access routines choose the fault one by one: a write that is translated chooses
the page fault, and a walk that finds no device asserts that it found one.
-/

namespace MEmu

open Machine (onCore)
open Run (Sat)

/-- The bus finds nothing exactly at the addresses of no device. -/
theorem MEmuMMIOBus.Routed.find_eq_none_iff {δ : Type} {b : MEmuMMIOBus δ} (hb : b.Routed)
    {addr : Word} : (b.findDevAccordingToAddr addr).1 = none ↔ ¬b.Owned addr := by
  constructor
  · intro hnone hown
    exact hown.found hnone
  · intro hno
    by_contra hfound
    obtain ⟨h, hh⟩ := Option.ne_none_iff_exists'.mp hfound
    have hfirst := (MEmuMMIOBus.findDev_iff hb).mp hh
    exact hno ⟨h, hfirst.registered, hfirst.inRange⟩

section Missing

variable {δ : Type} [MMIODevI δ]

/-! ## The accesses in question -/

/-- What a step accesses memory for. -/
inductive Requester where
  | fetch
  | data (op : MemOp)

/-- Which of its addresses has no device: its own, or that of an entry of a page table. -/
inductive Spot where
  | place
  | entry

/-- A walk from the table at `page_table_addr` reads an entry where there is no device. -/
inductive WalkMisses (env : MMUEnv) : List (BitVec 9) → Word → MEmuMMIOBus δ → Prop where
  | here {vpn : BitVec 9} {vpns : List (BitVec 9)} {page_table_addr : Word} {b : MEmuMMIOBus δ}
      (hnone : (b.findDevAccordingToAddr (page_table_addr + vpn.setWidth 64 * 8)).1 = none) :
      WalkMisses env (vpn :: vpns) page_table_addr b
  | deeper {vpn : BitVec 9} {vpns : List (BitVec 9)} {page_table_addr : Word}
      {b b' : MEmuMMIOBus δ} {buf : List Byte}
      (hread : (MEmuMMIOBus.paddrReadBuffer (page_table_addr + vpn.setWidth 64 * 8) 8
        (env.uninit 8)).run b = .ok (.ok, buf) b')
      (hdir : isValidDirPTE (Bytes.toWord buf) = true)
      (h : WalkMisses env vpns (PTE.ppa (Bytes.toWord buf)) b') :
      WalkMisses env (vpn :: vpns) page_table_addr b

/-- The translation of `v` walks the page tables, and reads an entry where there is no device. -/
structure TranslationMisses (env : MMUEnv) (v : Word) (s : MMUSys (MEmuMMIOBus δ)) : Prop where
  canonical : VAddr.canonical v = true
  sv39 : Satp.mode env.satp = 8
  lookup : ∃ mmu, (MMUSys.lookupTLB env.satp v).run s.mmu = .ok none mmu
  walk : WalkMisses env [VAddr.vpn2 v, VAddr.vpn1 v, VAddr.vpn0 v] (Satp.ppn env.satp <<< 12)
    s.sysBus

/-- The data access that the step from `m` makes, on the memory `s`. -/
structure DataAccess (m : Machine (MEmuMMIOBus δ)) (op : MemOp) (s : MMUSys (MEmuMMIOBus δ)) :
    Prop where
  fetched : ∃ inst rd, fetchInst.run m = .ok (some inst) ⟨m.begun, s⟩ ∧
    memOpOf inst m.begun = some (op, rd)
  aligned : op.checksAlign = true → op.addr % op.size = 0

/-- The operation is a store-conditional that has lost its reservation. -/
def MemOp.LostReservation (env : MMUEnv) (mmu : RV64SV39MMU) : MemOp → Prop
  | .storeConditional addr size _ => MMUSys.reservationLost env addr size mmu = true
  | _ => False

/-- The step from `m` accesses, for `who`, an address where there is no device. -/
inductive Misses (m : Machine (MEmuMMIOBus δ)) : Requester → Spot → Prop where
  | fetchPlace (hm : m.Fetches) {begin_addr size paddr : Word} {buffer : List Byte}
      {s s₁ : MMUSys (MEmuMMIOBus δ)} (hpart : FetchPart m begin_addr size buffer s)
      (hplace : (MEmu.fetchPlace m.begun.mmuEnv begin_addr size).run s = .ok (.ok paddr) s₁)
      (hnone : (s₁.sysBus.findDevAccordingToAddr paddr).1 = none) : Misses m .fetch .place
  | fetchEntry (hm : m.Fetches) {begin_addr size : Word} {buffer : List Byte}
      {s : MMUSys (MEmuMMIOBus δ)} (hpart : FetchPart m begin_addr size buffer s)
      (hpaged : m.begun.mmuEnv.bareFetch = false)
      (hmiss : TranslationMisses m.begun.mmuEnv begin_addr s) : Misses m .fetch .entry
  | dataPlace {op : MemOp} {paddr : Word} {s s₁ : MMUSys (MEmuMMIOBus δ)}
      (hop : DataAccess m op s)
      (hplace : (op.locate m.begun.mmuEnv).run s = .ok (.ok paddr) s₁)
      (hnone : (s₁.sysBus.findDevAccordingToAddr paddr).1 = none)
      (hkept : ¬op.LostReservation m.begun.mmuEnv s₁.mmu) : Misses m (.data op) .place
  | dataEntry {op : MemOp} {s : MMUSys (MEmuMMIOBus δ)} (hop : DataAccess m op s)
      (hpage : InPage op.addr op.size) (hpaged : m.begun.mmuEnv.bareData = false)
      (hmiss : TranslationMisses m.begun.mmuEnv op.addr s) : Misses m (.data op) .entry

/-! ## The faults -/

/-- The access fault of the kind of the access.  A load-reserved is of the kind of `lr`. -/
def Requester.accessFault (lr : ExecFeedbackCode) : Requester → ExecFeedbackCode
  | fetch => .instrAccFault
  | data (.load ..) => .loadAccFault
  | data (.loadReserved ..) => lr
  | data _ => .storeAccFault

/-- The step from `m` raises `cause` as its only trap, and reaches no assertion. -/
def FaultsWith (cause : ExecFeedbackCode) (m : Machine (MEmuMMIOBus δ)) : Prop :=
  ∃ m' tval, StepsInto m m' ∧ Raises m cause tval m'.core

/-- A write is not translated, and a load-reserved is of the kind of the atomic accesses. -/
def Requester.Spared (lr : ExecFeedbackCode) (env : MMUEnv) : Requester → Prop
  | data (.loadReserved ..) => lr = .storeAccFault
  | data (.store ..) | data (.storeConditional ..) => env.bareData = true
  | _ => True

/-- The fault that an access chooses where there is no device. -/
def MemOp.missingFault (bare : Bool) : MemOp → ExecFeedbackCode
  | .load .. => .loadAccFault
  | .store .. | .storeConditional .. => writeFault bare
  | .loadReserved .. | .amo .. => .storeAccFault

/-! ## The bus -/

variable {env : MMUEnv} {s : MMUSys (MEmuMMIOBus δ)} {addr : Word}

/-- A read where there is no device. -/
theorem busRead_missing (h : (s.sysBus.findDevAccordingToAddr addr).1 = none) (kind : AccessKind)
    (size : Word) (buffer : List Byte) :
    Sat s (busRead kind addr size buffer) (fun r _ => r = (.notAccessible, buffer))
      (fun _ _ => False) := by
  obtain ⟨b', hread, -⟩ := read_unowned h size buffer
  refine busCall_sat (fun r b hr => ?_) fun e b hr => ?_
  · cases hread.symm.trans hr
    rfl
  · cases hread.symm.trans hr

/-- A write where there is no device. -/
theorem busWrite_missing (h : (s.sysBus.findDevAccordingToAddr addr).1 = none) (kind : AccessKind)
    (size : Word) (buffer : List Byte) :
    Sat s (busWrite kind addr size buffer) (fun fb _ => fb = .notAccessible)
      (fun _ _ => False) := by
  have hwrite : (MMIOBus.paddrWriteBuffer addr size buffer).run s.sysBus
      = .ok .notAccessible (s.sysBus.findDevAccordingToAddr addr).2 := by
    refine (MEmuMMIOBus.run_paddrWriteBuffer addr size buffer s.sysBus).trans ?_
    rw [h]
  refine busCall_sat (fun fb b hr => ?_) fun e b hr => ?_
  · cases hwrite.symm.trans hr
    rfl
  · cases hwrite.symm.trans hr

/-! ## The walk -/

/-- A walk that misses goes on below a valid directory, or ends in the assertion. -/
theorem readPTE_misses {vpn : BitVec 9} {vpns : List (BitVec 9)} {page_table_addr : Word}
    (h : WalkMisses env (vpn :: vpns) page_table_addr s.sysBus) :
    Sat s (MMUSys.readPTE env page_table_addr vpn)
      (fun pte s' => isValidDirPTE pte = true ∧ WalkMisses env vpns (PTE.ppa pte) s'.sysBus)
      (fun e _ => e = .pteRead) := by
  cases h with
  | here hnone =>
      refine .bind ((busRead_missing hnone .walk 8 (env.uninit 8)).mono (fun r s' hr => ?_)
        fun _ _ => False.elim)
      subst hr
      exact .bind (cassert_sat (fun hok => by cases hok) fun _ => rfl)
  | deeper hread hdir h =>
      refine .bind (busCall_sat (fun r b hr => ?_) fun e b hr => ?_)
      · cases hread.symm.trans hr
        exact .bind (cassert_sat (fun _ => .pure ⟨hdir, h⟩) fun hno => absurd rfl hno)
      · cases hread.symm.trans hr

theorem pageTableWalk_misses {v : Word}
    (h : WalkMisses env [VAddr.vpn2 v, VAddr.vpn1 v, VAddr.vpn0 v] (Satp.ppn env.satp <<< 12)
      s.sysBus) :
    Sat s (MMUSys.pageTableWalk env v) (fun _ _ => False) (fun e _ => e = .pteRead) := by
  have hbelow {pte : Word} {α : Type} {s : MMUSys (MEmuMMIOBus δ)} {x y z : MMUM _ α}
      (hdir : isValidDirPTE pte = true)
      (h : Sat s z (fun _ _ => False) (fun e _ => e = .pteRead)) :
      Sat s (if isValidLeafPTE pte then x else if !isValidDirPTE pte then y else z)
        (fun _ _ => False) (fun e _ => e = .pteRead) := by
    refine .ite (fun hleaf => ?_) fun _ => .ite (fun hno => ?_) fun _ => h
    · rw [not_dir_of_leaf hleaf] at hdir
      cases hdir
    · rw [hdir] at hno
      cases hno
  refine .bind ((readPTE_misses h).mono (fun l2_pte s₂ h₂ => ?_) fun _ _ h => h)
  refine hbelow h₂.1 (.bind ((readPTE_misses h₂.2).mono (fun l1_pte s₁ h₁ => ?_) fun _ _ h => h))
  refine hbelow h₁.1 (.bind ((readPTE_misses h₁.2).mono (fun l0_pte s₀ h₀ => ?_) fun _ _ h => h))
  cases h₀.2

theorem getTLBEntry_misses {v : Word} (h : TranslationMisses env v s) :
    Sat s (MMUSys.getTLBEntry env v) (fun _ _ => False) (fun e _ => e = .pteRead) := by
  obtain ⟨hcanonical, hmode, ⟨mmu, hlookup⟩, hwalk⟩ := h
  refine MMUSys.getTLBEntry_sat (L := fun r m => r = none ∧ m = mmu)
    (fun hno => absurd hcanonical hno) (fun _ => ?hlook) ?hhit (fun _ _ hno => absurd hmode hno)
    ?hwalk
  case hlook =>
    rw [Sat, hlookup]
    exact ⟨rfl, rfl⟩
  case hhit =>
    rintro i m ⟨hnone, -⟩
    cases hnone
  case hwalk =>
    rintro m ⟨-, rfl⟩ -
    exact (pageTableWalk_misses (s := { s with mmu := m }) hwalk).mono (fun _ _ => False.elim)
      fun _ _ h => h

/-- An access in a page whose translation misses. -/
theorem pagedAddr_misses {φ : Type} {begin_addr size : Word} {misalign pgfault : φ}
    {check : SV39TLBEntry → Option φ} (hpage : InPage begin_addr size)
    (h : TranslationMisses env begin_addr s) :
    Sat s (MMUSys.pagedAddr env begin_addr size misalign pgfault check) (fun _ _ => False)
      (fun e _ => e = .pteRead) :=
  pagedAddr_sat (fun _ => getTLBEntry_misses h) (fun hno => hno hpage) (fun _ => False.elim)
    (fun _ _ _ hf _ => hf) (fun _ _ => False.elim) fun _ _ hf _ => hf

/-! ## Data accesses -/

/-- A data access where there is no device. -/
theorem access_missing {op : MemOp} {paddr : Word} (bare : Bool)
    (hnone : (s.sysBus.findDevAccordingToAddr paddr).1 = none)
    (hkept : ¬op.LostReservation env s.mmu) :
    Sat s (op.access env bare paddr) (fun r _ => r = .error (op.missingFault bare))
      (fun _ _ => False) := by
  have hwrite : MemOp.outcome (MemOp.writeFault bare) 0 = .error (MemOp.writeFault bare) := by
    cases bare <;> rfl
  cases op with
  | load addr size signed =>
      refine .bind ((busRead_missing hnone _ _ _).mono (fun r s' hr => .pure ?_) fun _ _ h => h)
      rw [hr]
      rfl
  | store addr size data =>
      refine .bind ((busWrite_missing hnone _ _ _).mono (fun fb s' hr => .pure ?_) fun _ _ h => h)
      rw [hr]
      exact hwrite
  | loadReserved addr size =>
      refine .bind (.bind (MMUSys.onMMU_sat (.modify (.bind ?_))))
      refine (busRead_missing (s := { s with mmu := s.mmu.reserve env addr size }) hnone _ _ _).mono
        (fun r s' hr => .pure (.pure ?_)) fun _ _ h => h
      rw [hr]
      rfl
  | storeConditional addr size data =>
      refine .bind (.bind (.get (.ite (fun hlost => absurd hlost hkept) fun _ => ?_)))
      refine .bind (MMUSys.onMMU_sat (.modify (.bind ?_)))
      refine (busWrite_missing (s := { s with mmu := { s.mmu with lr_valid := false } }) hnone
        _ _ _).mono (fun fb s' hr => .pure (.pure ?_)) fun _ _ h => h
      rw [hr]
      exact hwrite
  | amo f addr size src =>
      refine .bind (.bind ((busRead_missing hnone _ _ _).mono (fun r s' hr => ?_) fun _ _ h => h))
      rw [hr]
      exact .ite (fun _ => .pure (.pure rfl)) fun hok => absurd (by decide) hok

/-- A data access whose translation misses. -/
theorem perform_misses {op : MemOp} (halign : op.checksAlign = true → op.addr % op.size = 0)
    (hpage : InPage op.addr op.size) (hpaged : env.bareData = false)
    (hmiss : TranslationMisses env op.addr s) :
    Sat s (op.perform env) (fun _ _ => False) (fun e _ => e = .pteRead) := by
  rw [MemOp.perform_eq, MemOp.path, if_neg fun hno => hno.2 (halign hno.1), hpaged,
    if_neg Bool.false_ne_true]
  exact .bind_left (pagedAddr_misses hpage hmiss)

/-! ## Fetches -/

variable {m : Machine (MEmuMMIOBus δ)} {begin_addr size : Word} {buffer : List Byte}

theorem FetchPart.inPage (h : FetchPart m begin_addr size buffer s) (hm : m.Fetches) :
    InPage begin_addr size := by
  have heven := h.even hm
  cases h with
  | whole hno => exact .of_aligned (by decide) (aligned_of_even heven hno)
  | low | high => exact .of_aligned (by decide) heven

/-- A part that fails is the end of the fetch. -/
theorem FetchPart.fetch_fails (h : FetchPart m begin_addr size buffer s) {fb : VAddrRWFeedback}
    (hfb : fb ≠ .accessOk) {data : List Byte} {s' : MMUSys (MEmuMMIOBus δ)}
    (hr : (MMUSys.instFetchWhole m.begun.mmuEnv begin_addr size buffer).run s
      = .ok (fb, data) s') : ∃ buf, m.fetch = .ok (fb, buf) s' := by
  rw [Machine.fetch, MMUSys.vaddrInstFetch]
  cases h with
  | whole hpc =>
      rw [if_neg fun h => hpc h.2]
      exact ⟨data, hr⟩
  | low hpc =>
      rw [if_pos ⟨rfl, hpc⟩, EStateM.run_bind, hr]
      dsimp only
      rw [if_pos hfb]
      exact ⟨_, rfl⟩
  | high hpc hlow =>
      rw [if_pos ⟨rfl, hpc⟩, EStateM.run_bind, hlow]
      dsimp only
      rw [if_neg fun h => h rfl, EStateM.run_bind, hr]
      exact ⟨_, rfl⟩

/-- A part that aborts aborts the fetch. -/
theorem FetchPart.fetch_aborts (h : FetchPart m begin_addr size buffer s) {e : Abort}
    {s' : MMUSys (MEmuMMIOBus δ)}
    (hr : (MMUSys.instFetchWhole m.begun.mmuEnv begin_addr size buffer).run s = .error e s') :
    m.fetch = .error e s' := by
  rw [Machine.fetch, MMUSys.vaddrInstFetch]
  cases h with
  | whole hpc =>
      rw [if_neg fun h => hpc h.2]
      exact hr
  | low hpc =>
      rw [if_pos ⟨rfl, hpc⟩, EStateM.run_bind, hr]
  | high hpc hlow =>
      rw [if_pos ⟨rfl, hpc⟩, EStateM.run_bind, hlow]
      dsimp only
      rw [if_neg fun h => h rfl, EStateM.run_bind, hr]

theorem fetchEnd_missing (hm : m.Fetches) (hpart : FetchPart m begin_addr size buffer s)
    {paddr : Word} {s₁ : MMUSys (MEmuMMIOBus δ)}
    (hplace : (fetchPlace m.begun.mmuEnv begin_addr size).run s = .ok (.ok paddr) s₁)
    (hnone : (s₁.sysBus.findDevAccordingToAddr paddr).1 = none) :
    m.fetchEnd = .fault ExecFeedbackCode.instrAccFault.val := by
  have hread : Sat s₁ (MMUSys.readAt .fetch paddr size buffer) (fun r _ => r.1 = .accessFault)
      (fun _ _ => False) := by
    refine .bind ((busRead_missing hnone _ _ _).mono (fun r s' hr => .pure ?_) fun _ _ h => h)
    rw [hr]
    rfl
  obtain ⟨⟨fb, data⟩, s', hr, hfb⟩ := hread.exists_ok
  obtain rfl : fb = .accessFault := hfb
  have hpart' := (run_instFetchWhole_of_place (hpart.even hm) hplace).trans hr
  obtain ⟨buf, hfetch⟩ := hpart.fetch_fails VAddrRWFeedback.noConfusion hpart'
  rw [Machine.fetchEnd, hfetch]
  rfl

theorem fetchEnd_misses (hm : m.Fetches) (hpart : FetchPart m begin_addr size buffer s)
    (hpaged : m.begun.mmuEnv.bareFetch = false)
    (hmiss : TranslationMisses m.begun.mmuEnv begin_addr s) : m.fetchEnd = .aborts .pteRead := by
  have hwhole : Sat s (MMUSys.instFetchWhole m.begun.mmuEnv begin_addr size buffer)
      (fun _ _ => False) (fun e _ => e = .pteRead) := by
    rw [MMUSys.instFetchWhole, hpaged, if_neg Bool.false_ne_true]
    refine .bind (cassert_sat (fun _ => .bind_left ?_) fun hodd => absurd (hpart.even hm) hodd)
    exact pagedAddr_misses (hpart.inPage hm) hmiss
  obtain ⟨e, s', hr, rfl⟩ := hwhole.exists_error
  rw [Machine.fetchEnd, hpart.fetch_aborts hr]

/-! ## The step -/

/-- A step whose fetch fails with the cause of a trap. -/
theorem stepsInto_of_fault (cause : ExecFeedbackCode) (hm : m.Fetches)
    (hcause : TrapCause (Cause.exception cause)) (hzero : cause.val ≠ 0)
    (hend : m.fetchEnd = .fault cause.val) :
    ∃ s, StepsInto m ⟨(m.begun.trapped (Cause.exception cause)
      m.begun.currentProgramCounter).retire false .plain, s⟩ := by
  obtain ⟨s, hrun⟩ := run_of_fault hm hend
  refine ⟨s, ?_⟩
  have hraise := run_raiseTrap_ok (needTrap_begun m) hcause m.begun.currentProgramCounter
  have hexit := run_stepExit
    (c := m.begun.trapped (Cause.exception cause) m.begun.currentProgramCounter) 0 false .plain
    fun hill => absurd hill Bool.false_ne_true
  have hblank : RV64Core.statusBlank ((m.begun.trapped (Cause.exception cause)
      m.begun.currentProgramCounter).retire false .plain).status
        = RV64Core.statusBlank m.core.status := statusBlank_congr (trapped_status _ _ m.begun)
  rw [atExit_legal rfl, hblank] at hexit
  rw [StepsInto, hrun, fetchFault, EStateM.run_bind, run_cassert, if_pos hzero]
  dsimp only
  rw [EStateM.run_bind, ← Cause.exception, run_onCore_ok (m := ⟨m.begun, s⟩) hraise]
  dsimp only
  split
  · next hb => exact run_onCore_ok (hexit.trans (if_pos hb))
  · next hb => exact run_onCore_error (hexit.trans (if_neg hb))

theorem StepsInto.unique {m₁ m₂ : Machine (MEmuMMIOBus δ)} (h₁ : StepsInto m m₁)
    (h₂ : StepsInto m m₂) : m₁ = m₂ := by
  have hrun := h₁.symm.trans h₂
  split at hrun <;> cases hrun <;> rfl

/-- A step that raises an exception raises no other. -/
theorem faultsWith_iff {cause cause' : ExecFeedbackCode} {tval : Word}
    {m' : Machine (MEmuMMIOBus δ)} (hsteps : StepsInto m m')
    (hraises : Raises m cause' tval m'.core) : FaultsWith cause m ↔ cause = cause' := by
  constructor
  · rintro ⟨m₁, tval₁, hsteps₁, hraises₁⟩
    cases hsteps₁.unique hsteps
    have hlog := hraises₁.trapLog.symm.trans hraises.trapLog
    exact Cause.exception_injective (Prod.mk.inj (List.cons.inj hlog).1).1
  · rintro rfl
    exact ⟨m', tval, hsteps, hraises⟩

theorem not_faultsWith {cause : ExecFeedbackCode} {m' : Machine (MEmuMMIOBus δ)}
    (h : stepCoreAPI.run m = .error .pteRead m') : ¬FaultsWith cause m := by
  rintro ⟨m₁, tval, hsteps, -⟩
  rw [StepsInto, h] at hsteps
  split at hsteps <;> cases hsteps

/-- The step of a data access with its end. -/
theorem step_data_missing {op : MemOp} {paddr : Word} {s₁ : MMUSys (MEmuMMIOBus δ)}
    (hop : DataAccess m op s) (hplace : (op.locate m.begun.mmuEnv).run s = .ok (.ok paddr) s₁)
    (hnone : (s₁.sysBus.findDevAccordingToAddr paddr).1 = none)
    (hkept : ¬op.LostReservation m.begun.mmuEnv s₁.mmu) :
    ∃ m', StepsInto m m' ∧
      Raises m (op.missingFault m.begun.mmuEnv.bareData) op.addr m'.core := by
  obtain ⟨⟨inst, rd, hf, hmem⟩, halign⟩ := hop
  have hfails := access_missing m.begun.mmuEnv.bareData hnone hkept
  obtain ⟨r, s', hr, rfl⟩ := hfails.exists_ok
  have hperform : (op.perform m.begun.mmuEnv).run s
      = (op.access m.begun.mmuEnv m.begun.mmuEnv.bareData paddr).run s₁ :=
    perform_of_locate halign hplace
  exact ⟨_, stepsInto_of_memOp hf hmem (hperform.trans hr), raises_trapped _ _ _ _⟩

theorem step_data_misses {op : MemOp} (hop : DataAccess m op s) (hpage : InPage op.addr op.size)
    (hpaged : m.begun.mmuEnv.bareData = false)
    (hmiss : TranslationMisses m.begun.mmuEnv op.addr s) :
    ∃ m', stepCoreAPI.run m = .error .pteRead m' := by
  obtain ⟨⟨inst, rd, hf, hmem⟩, halign⟩ := hop
  have hfails := perform_misses halign hpage hpaged hmiss
  obtain ⟨e, s', hr, rfl⟩ := hfails.exists_error
  rw [run_stepCoreAPI_of_memOp hf hmem, hr]
  exact ⟨_, rfl⟩

/-- The fault chosen is that of the kind of the access exactly where the access is spared. -/
theorem accessFault_eq_iff (lr : ExecFeedbackCode) (env : MMUEnv) (op : MemOp) :
    (Requester.data op).accessFault lr = op.missingFault env.bareData ↔
      (Requester.data op).Spared lr env := by
  cases op with
  | load | amo => exact ⟨fun _ => trivial, fun _ => rfl⟩
  | loadReserved => exact Iff.rfl
  | store | storeConditional =>
      show ExecFeedbackCode.storeAccFault = MemOp.writeFault env.bareData ↔ env.bareData = true
      cases env.bareData <;> simp [MemOp.writeFault]

/-- A step that misses memory raises the access fault of the kind of the access exactly where it
is the address of the access itself that has no device, and a write is not translated. -/
theorem missing_faults_iff (lr : ExecFeedbackCode) (m : Machine (MEmuMMIOBus δ)) (who : Requester)
    (spot : Spot) (h : Misses m who spot) :
    FaultsWith (who.accessFault lr) m ↔ spot = .place ∧ who.Spared lr m.begun.mmuEnv := by
  cases h with
  | fetchPlace hm hpart hplace hnone =>
      obtain ⟨s', hsteps⟩ := stepsInto_of_fault .instrAccFault hm (by decide) (by decide)
        (fetchEnd_missing hm hpart hplace hnone)
      rw [faultsWith_iff hsteps (raises_trapped _ _ _ _)]
      exact ⟨fun _ => ⟨rfl, trivial⟩, fun _ => rfl⟩
  | fetchEntry hm hpart hpaged hmiss =>
      obtain ⟨s', hrun⟩ := run_of_aborts hm (fetchEnd_misses hm hpart hpaged hmiss)
      constructor
      · intro hfaults
        exact absurd hfaults (not_faultsWith hrun)
      · rintro ⟨hspot, -⟩
        cases hspot
  | dataPlace hop hplace hnone hkept =>
      obtain ⟨m', hsteps, hraises⟩ := step_data_missing hop hplace hnone hkept
      rw [faultsWith_iff hsteps hraises, accessFault_eq_iff]
      exact ⟨fun h => ⟨rfl, h⟩, fun h => h.2⟩
  | dataEntry hop hpage hpaged hmiss =>
      obtain ⟨m', hrun⟩ := step_data_misses hop hpage hpaged hmiss
      constructor
      · intro hfaults
        exact absurd hfaults (not_faultsWith hrun)
      · rintro ⟨hspot, -⟩
        cases hspot

end Missing

/-- `ld x0,0(x1)` in RAM at 0, with an address of no device in `x1`. -/
def loadsNothing : Machine (MEmuMMIOBus MMIOMem) :=
  .ofBytes ((default : RV64Core).reset.setGPR 1 0x1000) [0x03, 0xb0, 0x00, 0x00]

theorem missing_faults_iff_load : FaultsWith .loadAccFault loadsNothing := by
  have hop : DataAccess loadsNothing (.load 0x1000 8 true)
      (Run.final (fetchInst.run loadsNothing)).mem :=
    ⟨⟨0x0000b003, 0, rfl, rfl⟩, fun _ => by decide⟩
  exact (missing_faults_iff .loadAccFault loadsNothing (.data (.load 0x1000 8 true)) .place
    (.dataPlace hop rfl rfl id)).mpr ⟨rfl, trivial⟩

/-! ## A page without memory -/

/-- `sd x0,0(x0)` in M-mode with the rights of S-mode, and before it in memory the page table,
whose first entry maps the gigabyte at 0x40000000. -/
def storesNothing : Machine (MEmuMMIOBus MMIOMem) :=
  .ofBytes
    { (default : RV64Core).reset with
      currentProgramCounter := 8
      nextPrivMode := .mMode
      status := MStatus.setMprv true (MStatus.setMpp PrivMode.sMode.val 0)
      satp := 8 <<< 60 }
    [0xc7, 0x00, 0x00, 0x10, 0x00, 0x00, 0x00, 0x00, 0x23, 0x30, 0x00, 0x00]

theorem storesNothing_access : DataAccess storesNothing (.store 0 8 0)
    (Run.final (fetchInst.run storesNothing)).mem :=
  ⟨⟨0x00003023, 0, rfl, rfl⟩, fun _ => by decide⟩

/-- The store ends in a page fault. -/
theorem translated_store_page_faults : ¬∃ lr, ∀ (m : Machine (MEmuMMIOBus MMIOMem)) who spot,
    Misses m who spot → FaultsWith (who.accessFault lr) m := by
  rintro ⟨lr, h⟩
  have hplace : ∃ s₁, ((MemOp.store 0 8 0).locate storesNothing.begun.mmuEnv).run
        (Run.final (fetchInst.run storesNothing)).mem = .ok (.ok 0x40000000) s₁ ∧
      (s₁.sysBus.findDevAccordingToAddr 0x40000000).1 = none := ⟨_, rfl, rfl⟩
  obtain ⟨s₁, hplace, hnone⟩ := hplace
  obtain ⟨m', hsteps, hraises⟩ := step_data_missing storesNothing_access hplace hnone id
  have hfaults := h storesNothing (.data (.store 0 8 0)) .place
    (.dataPlace storesNothing_access hplace hnone id)
  have hcause := (faultsWith_iff hsteps hraises).mp hfaults
  cases hcause

end MEmu
