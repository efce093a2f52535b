import MEmu.Modes
import MEmu.Tlb

/-!
# User-mode confinement

A step in U-mode under Sv39 reads and writes only through leaves with `U` set and
the permission that the access needs.  The invariant `Confines` goes through the
fetch and up to the data access: the log so far is confined, and each TLB slot is
backed by a walk for every address that it serves.  On any bus such a walk is one
made after some reads of the step.  On RAM reads change nothing, so it is the walk
at the start.
-/

namespace MEmu

open Run (Sat Keeps)
open RV64SV39MMU

/-- The bits that a leaf must have for an access, besides `V`, `U` and `A`. -/
def AccessKind.permits : AccessKind → Word → Bool
  | walk, _ => true
  | fetch, pte => PTE.X pte
  | load, pte | loadReserved, pte | amoRead, pte => PTE.R pte
  | store, pte | storeConditional, pte | amoWrite, pte => PTE.W pte && PTE.D pte

section Leaf

variable {β : Type} [MMIOBus β] {env : MMUEnv} {b : β} {va : Word} {e : SV39TLBEntry}

/-- `addr` is what some address translates to through a user leaf that permits
accesses of this kind, on the bus `b` or after reads of it. -/
def UserPath (env : MMUEnv) (b : β) (kind : AccessKind) (addr : Word) : Prop :=
  ∃ va pte ps s s', BusReads b s.sysBus ∧
    (MMUSys.pageTableWalk env va).run s = .ok (some (pte, ps)) s' ∧
    addr = PTE.ppa pte + va % ps.bytes ∧
    PTE.V pte = true ∧ PTE.U pte = true ∧ PTE.A pte = true ∧ kind.permits pte = true

/-- The entry is what a walk for `va` gives, whatever address space it is of. -/
def Agrees (satp va pte : Word) (ps : PageSize) (e : SV39TLBEntry) : Prop :=
  { e with asid := Satp.asid satp } = leafEntry satp pte ps va

/-- The entry agrees with a walk made on `b` or after reads of it. -/
def Backed (env : MMUEnv) (b : β) (va : Word) (e : SV39TLBEntry) : Prop :=
  ∃ pte ps s s', BusReads b s.sysBus ∧
    (MMUSys.pageTableWalk env va).run s = .ok (some (pte, ps)) s' ∧ Agrees env.satp va pte ps e

/-- What a check on the entry ensures, it ensures of the leaf. -/
theorem Backed.userPath {kind : AccessKind} (h : Backed env b va e) (hU : e.U = true)
    (hA : e.A = true)
    (hkind : ∀ pte, isValidLeafPTE pte = true → e.R = PTE.R pte → e.W = PTE.W pte →
      e.X = PTE.X pte → e.D = PTE.D pte → kind.permits pte = true) :
    UserPath env b kind (e.ppa + va % e.pagesize.bytes) := by
  obtain ⟨pte, ps, s, s', hreads, hwalk, hagrees⟩ := h
  have hfield {α : Type} (f : SV39TLBEntry → α) := congrArg f hagrees
  have hleaf : isValidLeafPTE pte = true := by
    rw [MMUSys.pageTableWalk_eq] at hwalk
    exact (Sv39.walk_leaf hwalk).1
  refine ⟨va, pte, ps, s, s', hreads, hwalk, ?_, V_of_leaf hleaf, (hfield SV39TLBEntry.U).symm.trans hU,
    (hfield SV39TLBEntry.A).symm.trans hA, hkind pte hleaf (hfield SV39TLBEntry.R)
      (hfield SV39TLBEntry.W) (hfield SV39TLBEntry.X) (hfield SV39TLBEntry.D)⟩
  rw [show e.ppa = PTE.ppa pte from hfield SV39TLBEntry.ppa,
    show e.pagesize = ps from hfield SV39TLBEntry.pagesize]

/-! ## The three checks in U-mode -/

variable (hmode : env.currentPrivMode = .uMode)

include hmode

theorem priv_uMode : env.priv = .uMode := by
  rw [MMUEnv.priv, hmode]
  simp

/-- `MXR` does not help: it permits what is neither readable nor executable, and
such an entry is no leaf. -/
theorem Backed.load (h : Backed env b va e) {φ : Type} {pgfault accfault : φ}
    (hcheck : loadCheck env pgfault accfault e = none) {kind : AccessKind}
    (hkind : kind.permits = PTE.R) : UserPath env b kind (e.ppa + va % e.pagesize.bytes) := by
  rw [loadCheck, priv_uMode hmode] at hcheck
  split at hcheck
  · cases hcheck
  rename_i hRX
  split at hcheck
  · cases hcheck
  rename_i hU
  refine h.userPath (by simpa using hU) ?_ fun pte hleaf hR hW hX _ => ?_
  · cases hA : e.A with
    | true => rfl
    | false => simp [hA] at hRX
  · rw [hkind]
    cases hRe : PTE.R pte with
    | true => rfl
    | false =>
        have hXe := hX.trans (X_of_leaf hleaf hRe)
        simp [hR.trans hRe, hXe] at hRX

theorem Backed.store (h : Backed env b va e) {φ : Type} {pgfault : φ}
    (hcheck : storeCheck env pgfault e = none) {kind : AccessKind}
    (hkind : ∀ pte, PTE.R pte = true → PTE.W pte = true → PTE.D pte = true →
      kind.permits pte = true) : UserPath env b kind (e.ppa + va % e.pagesize.bytes) := by
  rw [storeCheck, priv_uMode hmode] at hcheck
  split at hcheck
  · cases hcheck
  rename_i hADW
  split at hcheck
  · cases hcheck
  rename_i hU
  simp only [Bool.or_eq_true, Bool.not_eq_true', not_or, Bool.not_eq_false] at hADW
  refine h.userPath (by simpa using hU) hADW.1.1 fun pte hleaf hR hW _ hD => ?_
  have hWe := hW.symm.trans hADW.2
  exact hkind pte (R_of_leaf hleaf hWe) hWe (hD.symm.trans hADW.1.2)

theorem Backed.fetch (h : Backed env b va e) (hcheck : fetchCheck env e = none) :
    UserPath env b .fetch (e.ppa + va % e.pagesize.bytes) := by
  rw [fetchCheck, hmode] at hcheck
  split at hcheck
  · cases hcheck
  rename_i hAX
  split at hcheck
  · cases hcheck
  rename_i hU
  simp only [Bool.or_eq_true, Bool.not_eq_true', not_or, Bool.not_eq_false] at hAX
  exact h.userPath (by simpa using hU) hAX.1 fun pte _ _ _ hX _ => hX.symm.trans hAX.2

/-- The check of an operation permits each access that the operation makes. -/
theorem Backed.op {op : MemOp} (h : Backed env b va e) (hcheck : op.check env e = none)
    {kind : AccessKind} (hkind : kind ∈ op.kinds) :
    UserPath env b kind (e.ppa + va % e.pagesize.bytes) := by
  cases op with
  | load =>
      obtain rfl := List.mem_singleton.mp hkind
      exact h.load hmode hcheck rfl
  | loadReserved =>
      obtain rfl := List.mem_singleton.mp hkind
      exact h.load hmode hcheck rfl
  | store =>
      obtain rfl := List.mem_singleton.mp hkind
      exact h.store hmode hcheck fun pte _ hW hD => Bool.and_eq_true_iff.mpr ⟨hW, hD⟩
  | storeConditional =>
      obtain rfl := List.mem_singleton.mp hkind
      exact h.store hmode hcheck fun pte _ hW hD => Bool.and_eq_true_iff.mpr ⟨hW, hD⟩
  | amo =>
      refine h.store hmode hcheck fun pte hR hW hD => ?_
      rcases List.mem_cons.mp hkind with rfl | hkind
      · exact hR
      · obtain rfl := List.mem_singleton.mp hkind
        exact Bool.and_eq_true_iff.mpr ⟨hW, hD⟩

end Leaf

/-! ## The invariant of a step -/

section Step

variable {β : Type} [MMIOBus β]

/-- The TLB agrees with the page tables: each slot with a walk made now, for every
address that it serves, and the lookup cache with the slots. -/
structure TLBAgrees (env : MMUEnv) (s : MMUSys β) : Prop where
  entry : ∀ i va, slotMatches env.satp va (s.mmu.tlb i) = true → ∃ pte ps s',
    (MMUSys.pageTableWalk env va).run s = .ok (some (pte, ps)) s' ∧
      Agrees env.satp va pte ps (s.mmu.tlb i)
  cached : s.mmu.CacheCoherent

/-- Each access so far, but for the walks, goes through a user leaf. -/
def LogConfined (env : MMUEnv) (b : β) (s : MMUSys β) : Prop :=
  ∀ a ∈ s.busLog, a.kind ≠ .walk → UserPath env b a.kind a.addr

/-- The state of a step before its data access. -/
structure Confines (env : MMUEnv) (b : β) (s : MMUSys β) : Prop where
  backed : ∀ i va, slotMatches env.satp va (s.mmu.tlb i) = true → Backed env b va (s.mmu.tlb i)
  cached : s.mmu.CacheCoherent
  reads : BusReads b s.sysBus
  log : LogConfined env b s

variable {env : MMUEnv} {b : β} {s s' : MMUSys β}

theorem LogConfined.append {new : List BusAccess} (h : LogConfined env b s)
    (hlog : s'.busLog = s.busLog ++ new)
    (hnew : ∀ a ∈ new, a.kind ≠ .walk → UserPath env b a.kind a.addr) : LogConfined env b s' := by
  intro a ha
  rw [hlog] at ha
  exact (List.mem_append.mp ha).elim (h a) (hnew a)

theorem LogConfined.push {a : BusAccess} (h : LogConfined env b s)
    (hlog : s'.busLog = s.busLog ++ [a]) (ha : UserPath env b a.kind a.addr) :
    LogConfined env b s' :=
  h.append hlog fun a' ha' _ => by
    rw [List.mem_singleton.mp ha']
    exact ha

theorem LogConfined.walks (h : LogConfined env b s) (hw : Walks s s') : LogConfined env b s' := by
  obtain ⟨new, hlog, hnew⟩ := hw.log
  exact h.append hlog fun a ha hne => absurd (hnew a ha) hne

theorem Confines.walks (h : Confines env b s) (hw : Walks s s') : Confines env b s' :=
  ⟨hw.mmu ▸ h.backed, hw.mmu ▸ h.cached, h.reads.trans hw.reads, h.log.walks hw⟩

/-- The leaf of a walk goes into the TLB. -/
theorem Confines.fill (h : Confines env b s') (hreads : BusReads b s.sysBus) {va pte : Word}
    {ps : PageSize} (hwalk : (MMUSys.pageTableWalk env va).run s = .ok (some (pte, ps)) s') :
    Confines env b { s' with mmu := (s'.mmu.writeTLB env.satp pte ps va).2 } ∧
      Backed env b va (leafEntry env.satp pte ps va) := by
  have hleaf (va' : Word) (hpage : va &&& ps.mask = va' &&& ps.mask) :
      Backed env b va' (leafEntry env.satp pte ps va) := by
    rw [MMUSys.pageTableWalk_eq] at hwalk
    refine ⟨pte, ps, s, s', hreads, Sv39.walk_of_samePage hwalk hpage, ?_⟩
    simp only [Agrees, leafEntry, hpage]
  refine ⟨⟨fun i va' hm => ?_, h.cached.writeTLB _ _ _ _, h.reads, h.log⟩, hleaf va rfl⟩
  simp only [writeTLB_tlb] at hm ⊢
  split at hm
  · rw [if_pos ‹_›]
    exact hleaf va' (slotMatches_iff.mp hm).2.2.symm
  · rw [if_neg ‹_›]
    exact h.backed i va' hm

theorem getTLBEntry_confines (h : Confines env b s) (va : Word) :
    Sat s (MMUSys.getTLBEntry env va)
      (fun r s' => Confines env b s' ∧ ∀ i, r = some i → Backed env b va (s'.mmu.tlb i))
      (fun _ s' => LogConfined env b s') := by
  have hm {r : Option TLBIndex} {m' : RV64SV39MMU} (hl : Looked env.satp va s.mmu r m') :
      Confines env b { s with mmu := m' } := ⟨hl.tlb ▸ h.backed, hl.cached, h.reads, h.log⟩
  refine MMUSys.getTLBEntry_sat (fun _ => h.log)
    (fun _ => (lookupTLB_sat h.cached).mono (fun _ _ hl => hl) fun _ _ _ => h.log)
    (fun i m' hl => ⟨hm hl, fun j hj => ?_⟩) (fun m' hl _ => ⟨hm hl, nofun⟩)
    fun m' hl _ => .intro (fun leaf s' hr => ?_) fun e s' hr => ?_
  · obtain rfl := Option.some.inj hj
    exact (hm hl).backed i va (hl.tlb ▸ hl.hit i rfl)
  · have hs' := (hm hl).walks ((MMUSys.pageTableWalk_walks env va _).ok hr)
    refine ⟨fun _ => ⟨hs', nofun⟩, ?_⟩
    rintro leaf_pte page_size rfl
    obtain ⟨hfill, hbacked⟩ := hs'.fill (hm hl).reads hr
    refine ⟨hfill, fun j hj => ?_⟩
    obtain rfl := Option.some.inj hj
    rw [writeTLB_tlb]
    simpa only [if_pos] using hbacked
  · exact (hm hl).log.walks ((MMUSys.pageTableWalk_walks env va _).error hr)

/-! ## Fetch and data access -/

variable (hmode : env.currentPrivMode = .uMode) (hsatp : Satp.mode env.satp = 8)

include hmode hsatp

theorem bare_uMode : env.bareData = false ∧ env.bareFetch = false := by
  rw [MMUEnv.bareData, MMUEnv.bareFetch, hmode, hsatp]
  exact ⟨rfl, rfl⟩

theorem instFetchWhole_confines (h : Confines env b s) (begin_addr size : Word)
    (buffer : List Byte) :
    Sat s (MMUSys.instFetchWhole env begin_addr size buffer) (fun _ => Confines env b)
      (fun _ => LogConfined env b) := by
  refine .bind (cassert_sat (fun _ => .ite (fun hbare => ?_) fun _ => .bind ?_) fun _ => h.log)
  · rw [(bare_uMode hmode hsatp).2] at hbare
    cases hbare
  refine pagedAddr_sat (fun _ => getTLBEntry_confines h begin_addr) (fun _ => .pure h)
    (fun _ ht => .pure ht.1) (fun _ _ _ ht _ => .pure ht.1) (fun _ _ ht _ => ht.1.log)
    fun i s' ht hc => .bind ?_
  have hpath := (ht.2 i rfl).fetch hmode hc
  refine busCall_sat (fun r b' hr => .pure ⟨ht.1.backed, ht.1.cached, ?_, ?_⟩) fun e b' _ => ?_
  · exact ht.1.reads.trans (.one (by rw [hr]; rfl))
  · exact ht.1.log.push rfl hpath
  · exact ht.1.log.push rfl hpath

/-- Both halves of a split fetch are confined. -/
theorem vaddrInstFetch_confines (h : Confines env b s) (begin_addr size : Word)
    (buffer : List Byte) :
    Sat s (MMUSys.vaddrInstFetch env begin_addr size buffer) (fun _ => Confines env b)
      (fun _ => LogConfined env b) := by
  have hwhole := @instFetchWhole_confines β _ env b
  refine .ite (fun _ => .bind ?_) fun _ => hwhole hmode hsatp h _ _ _
  refine (hwhole hmode hsatp h _ _ _).mono (fun r s' hs' => .ite (fun _ => .pure hs') fun _ => ?_)
    fun _ _ he => he
  exact .bind ((hwhole hmode hsatp hs' _ _ _).mono (fun _ _ hs'' => .pure hs'') fun _ _ he => he)

theorem perform_confined (h : Confines env b s) (op : MemOp) :
    Sat s (op.perform env) (fun _ => LogConfined env b) (fun _ => LogConfined env b) := by
  refine MemOp.perform_sat (fun _ => getTLBEntry_confines h op.addr) h.log
    (fun _ _ _ ht _ => ht.1.log) (fun _ _ ht _ => ht.1.log) (fun hbare => ?_) fun i s' _ ht hc => ?_
  · rw [(bare_uMode hmode hsatp).1] at hbare
    cases hbare
  have hop (kind : AccessKind) (hkind : kind ∈ op.kinds) := (ht.2 i rfl).op hmode hc hkind
  generalize (s'.mmu.tlb i).ppa + op.addr % (s'.mmu.tlb i).pagesize.bytes = paddr at hop
  have hmade {s'' : MMUSys β} (hex : ∃ new, op.Traced paddr s' s'' new) :
      LogConfined env b s'' := by
    obtain ⟨new, hnew⟩ := hex
    refine ht.1.log.append hnew.log fun a ha _ => ?_
    obtain ⟨hkind, haddr, -⟩ := hnew.made a ha
    rw [haddr]
    exact hop a.kind hkind
  exact (MemOp.access_traced env false _ op s').mono (fun _ _ => hmade) fun _ _ => hmade

end Step

/-- Every access of a step in U-mode under Sv39, but for the walks, goes through a
user leaf that permits it. -/
theorem user_confined {β : Type} [MMIOBus β] {m : Machine β} (hmode : m.mode = .uMode)
    (hsatp : Satp.mode m.core.satp = 8) (hTLB : TLBAgrees m.begun.mmuEnv m.mem) :
    ∀ a ∈ (Run.final (stepCoreAPI.run m)).mem.busLog, a.kind ≠ .walk →
      UserPath m.begun.mmuEnv m.mem.sysBus a.kind a.addr := by
  have hstart : Confines m.begun.mmuEnv m.mem.sysBus m.clearLogs.mem :=
    ⟨fun i va hm => by
      obtain ⟨pte, ps, s', hwalk, hagrees⟩ := hTLB.entry i va hm
      exact ⟨pte, ps, m.mem, s', .refl _, hwalk, hagrees⟩, hTLB.cached, .refl _, nofun⟩
  have hmode : m.begun.mmuEnv.currentPrivMode = .uMode := hmode
  have hfetch := vaddrInstFetch_confines hmode hsatp hstart m.begun.currentProgramCounter 4 (Bytes.ofWord 4 0)
  show LogConfined m.begun.mmuEnv m.mem.sysBus (Run.final (stepCoreAPI.run m)).mem
  rcases stepCoreAPI_mem m with ⟨e, he⟩ | ⟨s, hs, hexec⟩
  · exact hfetch.error he
  have hs : Confines m.begun.mmuEnv m.mem.sysBus s := by
    rcases hs with rfl | ⟨r, hr⟩
    · exact hstart
    · exact hfetch.ok hr
  generalize (Run.final (stepCoreAPI.run m)).mem = s' at hexec ⊢
  cases hexec with
  | idle => exact hs.log
  | access op rd hop => exact (perform_confined hmode hsatp hs op).final
  | flush vaddr asid => exact hs.log

/-- U-mode at `sd x0, 16(x0)`, at address 8, with the first GiB mapped. -/
def userStore : Machine (MEmuMMIOBus MMIOMem) :=
  .ofBytes { (default : RV64Core) with satp := 8 <<< 60, currentProgramCounter := 8 }
    [0xdf, 0, 0, 0, 0, 0, 0, 0, 0x23, 0x38, 0, 0, 0, 0, 0, 0, 0, 0, 0, 0, 0, 0, 0, 0]

theorem user_confined_store :
    ∃ a ∈ (Run.final (stepCoreAPI.run userStore)).mem.busLog, a.kind = .store ∧
      UserPath userStore.begun.mmuEnv userStore.mem.sysBus .store a.addr := by
  have hTLB : TLBAgrees userStore.begun.mmuEnv userStore.mem :=
    ⟨fun i va hm => absurd rfl (slotMatches_iff.mp hm).2.1, nofun⟩
  have hmem : ⟨.store, 16, 8, true⟩ ∈ (Run.final (stepCoreAPI.run userStore)).mem.busLog := by
    decide +kernel
  exact ⟨_, hmem, rfl, user_confined rfl (by decide) hTLB _ hmem (by decide)⟩

end MEmu
