import MEmu.Exceptions
import MEmu.Interrupts
import MEmu.Masks
import MEmu.ScanUnique

/-!
# The assertions that a guest can reach

Most assertions of the core and the MMU hold in every state reached from reset.  Five do not:
the guest chooses the mode it writes to `mtvec`, the addresses that are translated, the page
tables, what the TLB has been filled with, and where its trap vector is.  `StepClear` says of
a state that the next step keeps clear of those five.
-/

namespace MEmu

open Machine (onCore onMem)
open Run (Sat AbortsIn AbortsFrom)
open RV64SV39MMU

/-- The abort is an assertion of the core, the CSR code or the MMU.  The others are of the
bus and its devices. -/
def Abort.isAssertion : Abort → Bool
  | regionConflict | outOfBuffer => false
  | _ => true

/-- The abort is the bus's own. -/
abbrev OfBus (e : Abort) : Prop := e.isAssertion = false

/-- No call of the bus reaches an assertion of the core. -/
structure BusAborts (β : Type) [MMIOBus β] : Prop where
  read (addr size : Word) (buffer : List Byte) :
    AbortsIn OfBus (MMIOBus.paddrReadBuffer addr size buffer : EStateM Abort β _)
  write (addr size : Word) (buffer : List Byte) :
    AbortsIn OfBus (MMIOBus.paddrWriteBuffer addr size buffer : EStateM Abort β _)

/-- A bus of RAM aborts outside a buffer only. -/
theorem RAMBus.busAborts : BusAborts RAMBus :=
  ⟨RAMBus.read_aborts rfl, RAMBus.write_aborts rfl⟩

/-! ## Translation -/

section Translation

variable {β : Type} [MMIOBus β]

/-- The bus answers for every entry that a walk reads, from the table at `page_table_addr`. -/
def WalkAnswered (env : MMUEnv) : List (BitVec 9) → Word → β → Prop
  | [], _, _ => True
  | vpn :: vpns, page_table_addr, b => ∀ r b',
      (MMIOBus.paddrReadBuffer (page_table_addr + vpn.setWidth 64 * 8) 8 (env.uninit 8)).run b
        = .ok r b' →
      r.1 = .ok ∧ (isValidDirPTE (Bytes.toWord r.2) = true →
        WalkAnswered env vpns (PTE.ppa (Bytes.toWord r.2)) b')

/-- A translation of `v` reaches no assertion: the address is canonical, the scan finds at
most one slot, and a walk is answered. -/
structure TranslationClear (env : MMUEnv) (v : Word) (s : MMUSys β) : Prop where
  canonical : VAddr.canonical v = true
  unique : Scans env.satp v s.mmu → ∀ i j, slotMatches env.satp v (s.mmu.tlb i) = true →
    slotMatches env.satp v (s.mmu.tlb j) = true → i = j
  answered : Satp.mode env.satp = 8 → Scans env.satp v s.mmu →
    (∀ i, slotMatches env.satp v (s.mmu.tlb i) = false) →
    WalkAnswered env [VAddr.vpn2 v, VAddr.vpn1 v, VAddr.vpn0 v] (Satp.ppn env.satp <<< 12)
      s.sysBus

variable {env : MMUEnv} {s : MMUSys β}

/-- Where the walk is answered the read of an entry asserts nothing. -/
theorem readPTE_clear (hbus : BusAborts β) {page_table_addr : Word} {vpn : BitVec 9}
    {vpns : List (BitVec 9)} (h : WalkAnswered env (vpn :: vpns) page_table_addr s.sysBus) :
    Sat s (MMUSys.readPTE env page_table_addr vpn)
      (fun pte s' => isValidDirPTE pte = true → WalkAnswered env vpns (PTE.ppa pte) s'.sysBus)
      (fun e _ => OfBus e) := by
  refine .bind (busCall_sat (fun r b hr => ?_) fun e b hr => ?_)
  · obtain ⟨hok, hdir⟩ := h r b hr
    exact .bind (cassert_sat (fun _ => .pure hdir) fun hno => absurd hok hno)
  · exact (hbus.read _ _ _ _).error hr

/-- Where each level is answered no assertion of the walk fails. -/
theorem pageTableWalk_clear (hbus : BusAborts β) {v : Word}
    (h : WalkAnswered env [VAddr.vpn2 v, VAddr.vpn1 v, VAddr.vpn0 v] (Satp.ppn env.satp <<< 12)
      s.sysBus) :
    Sat s (MMUSys.pageTableWalk env v) (fun _ _ => True) (fun e _ => OfBus e) := by
  refine .bind ((readPTE_clear hbus h).mono (fun l2_pte s₂ h₂ => ?_) fun _ _ h => h)
  refine .ite (fun _ => .pure trivial) fun _ => .ite (fun _ => .pure trivial) fun hdir => ?_
  have h₂ := h₂ (by simpa using hdir)
  refine .bind ((readPTE_clear hbus h₂).mono (fun l1_pte s₁ h₁ => ?_) fun _ _ h => h)
  refine .ite (fun _ => .pure trivial) fun _ => .ite (fun _ => .pure trivial) fun hdir => ?_
  have h₁ := h₁ (by simpa using hdir)
  refine .bind ((readPTE_clear hbus h₁).mono (fun l0_pte s₀ _ => ?_) fun _ _ h => h)
  exact .ite (fun _ => .pure trivial) fun _ => .pure trivial

/-- A slot that the cache names is of the size that was asked for. -/
theorem cacheLookup_pagesize {satp v : Word} {page_size : PageSize} {m : RV64SV39MMU}
    {i : TLBIndex} (h : m.cacheLookup satp v page_size = some i) :
    (m.tlb i).pagesize = page_size := by
  unfold cacheLookup at h
  split at h
  · split at h
    · rename_i hok
      cases h
      rw [Bool.and_eq_true, beq_iff_eq] at hok
      exact hok.2
    · cases h
  · cases h

/-- A lookup past the cache is the scan. -/
theorem run_lookupTLB_scans {satp v : Word} {m : RV64SV39MMU} (h : Scans satp v m) :
    (MMUSys.lookupTLB satp v).run m
      = (scanTLB satp v (List.finRange TLB_SIZE) none).run m := by
  obtain ⟨-, h4K, h2M, h1G⟩ := h
  rw [MMUSys.lookupTLB, EStateM.run_bind, EStateM.run_get]
  simp only [h4K, h2M, h1G]

/-- A lookup in any TLB: what it finds is valid, a miss has scanned all the slots, and where it
fails, two of them match. -/
theorem lookupTLB_scanned {satp v : Word} {m : RV64SV39MMU} :
    Sat m (MMUSys.lookupTLB satp v)
      (fun r m' => m'.tlb = m.tlb ∧ (∀ i, r = some i → (m.tlb i).pagesize ≠ .invalid) ∧
        (r = none → (VAddr.canonical v = true → Scans satp v m) ∧
          ∀ i, slotMatches satp v (m.tlb i) = false))
      (fun _ _ => (VAddr.canonical v = true → Scans satp v m) ∧ ∃ i j, i ≠ j ∧
        slotMatches satp v (m.tlb i) = true ∧ slotMatches satp v (m.tlb j) = true) := by
  have hhit {page_size : PageSize} (hps : page_size ≠ .invalid) {i : TLBIndex}
      (h : m.cacheLookup satp v page_size = some i) :
      ∀ j, some i = some j → (m.tlb j).pagesize ≠ .invalid := by
    rintro _ ⟨⟩
    rwa [cacheLookup_pagesize h]
  refine .bind (.get ?_)
  split
  · exact .pure ⟨rfl, hhit PageSize.noConfusion ‹_›, nofun⟩
  rename_i h4K
  split
  · exact .pure ⟨rfl, hhit PageSize.noConfusion ‹_›, nofun⟩
  rename_i h2M
  split
  · exact .pure ⟨rfl, hhit PageSize.noConfusion ‹_›, nofun⟩
  rename_i h1G
  have hscans : VAddr.canonical v = true → Scans satp v m := fun hv => ⟨hv, h4K, h2M, h1G⟩
  refine (scanTLB_all m).mono (fun r m' h => ?_) fun e _ h => ?_
  · obtain ⟨htlb, -, -, hfound⟩ := h
    refine ⟨htlb, fun i hi => (slotMatches_iff.mp ((hfound i).mp hi)).2.1, fun hnone => ?_⟩
    refine ⟨hscans, fun i => Bool.eq_false_iff.mpr fun hmatch => ?_⟩
    rw [(hfound i).mpr hmatch] at hnone
    cases hnone
  · obtain ⟨-, i, j, hij, hi, hj⟩ := h
    exact ⟨hscans, i, j, hij, hi, hj⟩

/-- The lookup asserts nothing where the scan can match one slot only. -/
theorem lookupTLB_clear {satp v : Word} {m : RV64SV39MMU} (hv : VAddr.canonical v = true)
    (hunique : Scans satp v m → ∀ i j, slotMatches satp v (m.tlb i) = true →
      slotMatches satp v (m.tlb j) = true → i = j) :
    Sat m (MMUSys.lookupTLB satp v)
      (fun r _ => r = none → Scans satp v m ∧ ∀ i, slotMatches satp v (m.tlb i) = false)
      (fun _ _ => False) := by
  refine lookupTLB_scanned.mono (fun r m' h hnone => ?_) fun e _ h => ?_
  · obtain ⟨-, -, hmiss⟩ := h
    exact ⟨(hmiss hnone).1 hv, (hmiss hnone).2⟩
  · obtain ⟨hscans, i, j, hij, hi, hj⟩ := h
    exact hij (hunique (hscans hv) i j hi hj)

/-- The entry found is valid. -/
def ValidEntry (r : Option TLBIndex) (s : MMUSys β) : Prop :=
  ∀ i, r = some i → (s.mmu.tlb i).pagesize ≠ .invalid

omit [MMIOBus β] in
/-- The slot that was just filled is valid. -/
theorem ValidEntry.filled {m : RV64SV39MMU} {page_size : PageSize} (hps : page_size ≠ .invalid)
    (satp leaf_pte v : Word) (s : MMUSys β) :
    ValidEntry (some m.lastSwappedIndex)
      { s with mmu := (m.writeTLB satp leaf_pte page_size v).2 } := by
  rintro _ ⟨⟩
  rw [writeTLB_tlb]
  simp only [if_pos]
  exact hps

/-- What `getTLBEntry` finds is valid, from any state. -/
theorem getTLBEntry_valid (v : Word) (s : MMUSys β) :
    Sat s (MMUSys.getTLBEntry env v) ValidEntry (fun _ _ => True) := by
  refine MMUSys.getTLBEntry_sat (fun _ => trivial)
    (fun _ => lookupTLB_scanned.mono (fun _ _ hl => hl) fun _ _ _ => trivial)
    (fun i m hl j hj => ?_) (fun _ _ _ => nofun)
    fun m _ _ => .intro (fun leaf s₁ hwalk => ⟨fun _ => nofun, ?_⟩) fun _ _ _ => trivial
  · obtain ⟨htlb, hhit, -⟩ := hl
    rw [show m.tlb j = s.mmu.tlb j from congrFun htlb j]
    exact hhit j hj
  · rintro leaf_pte page_size rfl
    exact .filled (MMUSys.pageTableWalk_pageSize hwalk) _ _ _ _

/-- A translation that is clear ends in a valid entry, or aborts in the bus. -/
theorem getTLBEntry_clear (hbus : BusAborts β) {v : Word} (h : TranslationClear env v s) :
    Sat s (MMUSys.getTLBEntry env v) ValidEntry (fun e _ => OfBus e) := by
  suffices haborts : Sat s (MMUSys.getTLBEntry env v) (fun _ _ => True) (fun e _ => OfBus e) from
    ((getTLBEntry_valid v s).and haborts).mono (fun _ _ h => h.1) fun _ _ h => h.2
  refine MMUSys.getTLBEntry_sat (fun hno => absurd h.canonical hno)
    (fun _ => (lookupTLB_clear h.canonical h.unique).mono (fun _ _ hl => hl) fun _ _ => False.elim)
    (fun _ _ _ => trivial) (fun _ _ _ => trivial) fun m hl hmode => ?_
  obtain ⟨hscans, hno⟩ := hl rfl
  have hwalk := h.answered hmode hscans hno
  exact (pageTableWalk_clear (s := { s with mmu := m }) hbus hwalk).mono
    (fun _ _ _ => ⟨fun _ => trivial, fun _ _ _ => trivial⟩) fun _ _ h => h

omit [MMIOBus β] in
/-- The pages of a valid entry have a size. -/
theorem ValidEntry.bytes {i : TLBIndex} (h : ValidEntry (some i) s) :
    (s.mmu.tlb i).pagesize.bytes ≠ 0 := by
  have hps := h i rfl
  cases hp : (s.mmu.tlb i).pagesize with
  | invalid => exact absurd hp hps
  | size4K | size2M | size1G => decide

/-! ### What a translation needs -/

/-- A walk that aborts in the bus only was answered at its first level. -/
theorem WalkAnswered.of_aborts {α : Type} {page_table_addr : Word} {vpn : BitVec 9}
    {vpns : List (BitVec 9)} {f : Word → MMUM β α}
    (h : AbortsFrom OfBus s (MMUSys.readPTE env page_table_addr vpn >>= f))
    (hnext : ∀ pte s', isValidDirPTE pte = true → AbortsFrom OfBus s' (f pte) →
      WalkAnswered env vpns (PTE.ppa pte) s'.sysBus) :
    WalkAnswered env (vpn :: vpns) page_table_addr s.sysBus := by
  intro r b hr
  obtain ⟨s', rfl, hread⟩ : ∃ s', s'.sysBus = b ∧
      (busRead .walk (page_table_addr + vpn.setWidth 64 * 8) 8 (env.uninit 8)).run s = .ok r s' :=
    ⟨_, rfl, by rw [busRead, run_busCall, hr]⟩
  by_cases hok : r.1 = .ok
  · refine ⟨hok, fun hdir => hnext _ s' hdir (h.right ?_)⟩
    rw [MMUSys.readPTE, EStateM.run_bind, hread]
    simp only [EStateM.run_bind, run_cassert, if_pos hok]
    rfl
  · have herr := h.left.right hread
    exact absurd (herr _ _ (by rw [EStateM.run_bind, run_cassert, if_neg hok])) (by decide)

/-- And so at each level. -/
theorem walkAnswered_of_walk {v : Word} (h : AbortsFrom OfBus s (MMUSys.pageTableWalk env v)) :
    WalkAnswered env [VAddr.vpn2 v, VAddr.vpn1 v, VAddr.vpn0 v] (Satp.ppn env.satp <<< 12)
      s.sysBus := by
  have hnot {pte : Word} (hdir : isValidDirPTE pte = true) : ¬isValidLeafPTE pte = true :=
    fun hleaf => by rw [not_dir_of_leaf hleaf] at hdir; cases hdir
  refine .of_aborts h fun l2_pte s₂ hdir₂ h₂ => ?_
  rw [if_neg (hnot hdir₂), if_neg (by simpa using hdir₂)] at h₂
  refine .of_aborts h₂ fun l1_pte s₁ hdir₁ h₁ => ?_
  rw [if_neg (hnot hdir₁), if_neg (by simpa using hdir₁)] at h₁
  exact .of_aborts h₁ fun _ _ _ _ => trivial

/-- A translation that aborts in the bus only is clear. -/
theorem TranslationClear.of_aborts {v : Word}
    (h : AbortsFrom OfBus s (MMUSys.getTLBEntry env v)) : TranslationClear env v s := by
  have hcanonical : VAddr.canonical v = true := by
    by_contra hno
    exact absurd (h.left _ _ (by rw [run_cassert, if_neg hno])) (by decide)
  have hlookup := h.right (by rw [run_cassert, if_pos hcanonical])
  have hscan (hscans : Scans env.satp v s.mmu) : ∃ r m', m'.tlb = s.mmu.tlb ∧
      (MMUSys.onMMU (MMUSys.lookupTLB env.satp v)).run s = .ok r { s with mmu := m' } ∧
      ∀ i, r = some i ↔ slotMatches env.satp v (s.mmu.tlb i) = true := by
    have hrun := run_lookupTLB_scans hscans
    cases hr : (scanTLB env.satp v (List.finRange TLB_SIZE) none).run s.mmu with
    | ok r m' =>
        obtain ⟨htlb, -, -, hfound⟩ := (scanTLB_all s.mmu).ok hr
        exact ⟨r, m', htlb, by rw [MMUSys.run_onMMU, hrun, hr], hfound⟩
    | error e m' =>
        obtain ⟨rfl, -⟩ := (scanTLB_all s.mmu).error hr
        exact absurd (hlookup.left _ _ (by rw [MMUSys.run_onMMU, hrun, hr])) (by decide)
  refine ⟨hcanonical, fun hscans i j hi hj => ?_, fun hmode hscans hno => ?_⟩
  · obtain ⟨r, m', -, -, hfound⟩ := hscan hscans
    exact Option.some.inj (((hfound i).mpr hi).symm.trans ((hfound j).mpr hj))
  · obtain ⟨r, m', -, hr, hfound⟩ := hscan hscans
    cases r with
    | some i =>
        have hi := (hfound i).mp rfl
        rw [hno i] at hi
        cases hi
    | none =>
        have hwalk := hlookup.right hr
        rw [if_neg (not_not.mpr hmode)] at hwalk
        exact walkAnswered_of_walk (s := { s with mmu := m' }) hwalk.left

/-! ## Fetches and data accesses -/

/-- The fetch at `pc` reaches no assertion of the translation: that of the first half, where
the instruction is fetched in two, or of all of it, and that of the second half. -/
structure FetchClear (env : MMUEnv) (pc : Word) (s : MMUSys β) : Prop where
  first : TranslationClear env pc s
  second : pc % 4 = 2 → ∀ low s',
    (MMUSys.instFetchWhole env pc 2 ((Bytes.ofWord 4 0).take 2)).run s = .ok (.accessOk, low) s' →
    TranslationClear env (pc + 2) s'

/-- A fetch within a page ends in no misalignment. -/
theorem instFetchWhole_clear (hbus : BusAborts β) {begin_addr size : Word}
    (heven : begin_addr % 2 = 0) (hin : InPage begin_addr size)
    (h : env.bareFetch = false → TranslationClear env begin_addr s) (buffer : List Byte) :
    Sat s (MMUSys.instFetchWhole env begin_addr size buffer) (fun r _ => r.1 ≠ .misAlign)
      (fun e _ => OfBus e) := by
  have hat (addr : Word) (s : MMUSys β) :
      Sat s (MMUSys.readAt .fetch addr size buffer) (fun r _ => r.1 ≠ .misAlign)
        (fun e _ => OfBus e) := by
    refine .bind (busCall_sat (fun r b _ => .pure ?_) fun e b hr => (hbus.read _ _ _ _).error hr)
    split <;> exact VAddrRWFeedback.noConfusion
  refine .bind (cassert_sat (fun _ => ?_) fun hno => absurd heven hno)
  refine .ite (fun _ => hat begin_addr s) fun hbare => .bind ?_
  have hclear := h (by simpa using hbare)
  refine (pagedAddr_sat (Q := fun r _ => ∀ fault, r = .error fault → fault = .pageFault)
    (fun _ => getTLBEntry_clear hbus hclear) (fun hno => absurd hin hno) (fun _ _ => ?_)
    (fun i s' fault _ hc => ?_) (fun i s' hT hzero => absurd hzero hT.bytes)
    fun _ _ _ _ => nofun).mono (fun r s' hr => ?_) fun _ _ h => h
  · rintro _ ⟨⟩
    rfl
  · rintro _ ⟨⟩
    exact fetchCheck_fault hc
  · cases r with
    | error fault =>
        rw [hr fault rfl]
        exact .pure VAddrRWFeedback.noConfusion
    | ok paddr => exact hat paddr s'

/-- The second half of a parcel is at an even address. -/
theorem even_add_two {pc : Word} (h : pc % 2 = 0) : (pc + 2) % 2 = 0 := by
  refine BitVec.eq_of_toNat_eq ?_
  have h : pc.toNat % 2 = 0 := congrArg BitVec.toNat h
  show (pc.toNat + 2) % 2 ^ 64 % 2 = 0
  omega

/-- An even address that is not at the second half is aligned. -/
theorem aligned_of_even {pc : Word} (h : pc % 2 = 0) (hno : pc % 4 ≠ 2) : pc % 4 = 0 := by
  refine BitVec.eq_of_toNat_eq ?_
  have hno : pc.toNat % 4 ≠ 2 := fun hpc => hno (BitVec.eq_of_toNat_eq hpc)
  have h : pc.toNat % 2 = 0 := congrArg BitVec.toNat h
  show pc.toNat % 4 = 0
  omega

/-- The fetch of a step never crosses a page: it is split where four bytes might. -/
theorem vaddrInstFetch_clear (hbus : BusAborts β) {pc : Word} (heven : pc % 2 = 0)
    (h : env.bareFetch = false → FetchClear env pc s) :
    Sat s (MMUSys.vaddrInstFetch env pc 4 (Bytes.ofWord 4 0)) (fun r _ => r.1 ≠ .misAlign)
      (fun e _ => OfBus e) := by
  refine .ite (fun hsplit => .bind ?_) fun hwhole => ?_
  · have hfirst := instFetchWhole_clear hbus heven (.of_aligned (by decide) heven)
      (fun hbare => (h hbare).first) ((Bytes.ofWord 4 0).take 2)
    refine .intro (fun r s' hr => ?_) fun e s' hr => hfirst.error hr
    obtain ⟨fb, low⟩ := r
    have hfb : fb ≠ .misAlign := hfirst.ok hr
    refine .ite (fun _ => .pure hfb) fun hok => .bind ?_
    obtain rfl : fb = .accessOk := not_not.mp hok
    have heven := even_add_two heven
    have hsecond := instFetchWhole_clear hbus heven (.of_aligned (by decide) heven)
      (fun hbare => (h hbare).second hsplit.2 low s' hr) ((Bytes.ofWord 4 0).drop 2)
    exact hsecond.mono (fun r _ hr => .pure hr) fun _ _ h => h
  · have haligned := aligned_of_even heven fun hpc => hwhole ⟨rfl, hpc⟩
    exact instFetchWhole_clear hbus heven (.of_aligned (by decide) haligned)
      (fun hbare => (h hbare).first) _

/-- A data access whose translation is clear aborts only where the bus does. -/
theorem perform_clear (hbus : BusAborts β) {op : MemOp}
    (hamo : ∀ f addr size src, op = .amo f addr size src → f ≠ .lr ∧ f ≠ .sc)
    (h : op.Translates env → TranslationClear env op.addr s) :
    Sat s (op.perform env) (fun _ _ => True) (fun e _ => OfBus e) := by
  have haccess (bare : Bool) (paddr : Word) : AbortsIn OfBus (op.access (β := β) env bare paddr) :=
    access_abortsIn hbus.read hbus.write env bare paddr op fun f addr size src hop hf =>
      hf.elim (fun hlr => absurd hlr (hamo f addr size src hop).1)
        fun hsc => absurd hsc (hamo f addr size src hop).2
  exact MemOp.perform_sat (fun htrans => getTLBEntry_clear hbus (h htrans)) trivial
    (fun _ _ _ _ _ => trivial) (fun i s' hT hzero => absurd hzero hT.bytes)
    (fun _ => haccess true op.addr s) fun _ s' _ _ _ => haccess false _ s'

/-! ### What a fetch and an access need -/

theorem TranslationClear.of_paged {φ : Type} {begin_addr size : Word} {misalign pgfault : φ}
    {check : SV39TLBEntry → Option φ} (hin : InPage begin_addr size)
    (h : AbortsFrom OfBus s (MMUSys.pagedAddr env begin_addr size misalign pgfault check)) :
    TranslationClear env begin_addr s := by
  rw [InPage] at hin
  rw [MMUSys.pagedAddr, if_neg (not_not.mpr hin)] at h
  exact .of_aborts h.left

theorem TranslationClear.of_fetch {begin_addr size : Word} {buffer : List Byte}
    (heven : begin_addr % 2 = 0) (hin : InPage begin_addr size) (hbare : env.bareFetch = false)
    (h : AbortsFrom OfBus s (MMUSys.instFetchWhole env begin_addr size buffer)) :
    TranslationClear env begin_addr s := by
  have hpaged := h.right (by rw [run_cassert, if_pos heven])
  rw [hbare, if_neg Bool.false_ne_true] at hpaged
  exact .of_paged hin hpaged.left

/-- A fetch that aborts in the bus only is clear. -/
theorem FetchClear.of_aborts {pc : Word} (heven : pc % 2 = 0) (hbare : env.bareFetch = false)
    (h : AbortsFrom OfBus s (MMUSys.vaddrInstFetch env pc 4 (Bytes.ofWord 4 0))) :
    FetchClear env pc s := by
  by_cases hsplit : pc % 4 = 2
  · rw [MMUSys.vaddrInstFetch, if_pos ⟨rfl, hsplit⟩] at h
    refine ⟨.of_fetch heven (.of_aligned (by decide) heven) hbare h.left, fun _ low s' hr => ?_⟩
    have hsecond := h.right hr
    have heven := even_add_two heven
    exact .of_fetch heven (.of_aligned (by decide) heven) hbare hsecond.left
  · rw [MMUSys.vaddrInstFetch, if_neg fun hs => hsplit hs.2] at h
    refine ⟨.of_fetch heven (.of_aligned (by decide) ?_) hbare h, fun hs => absurd hs hsplit⟩
    exact aligned_of_even heven hsplit

theorem TranslationClear.of_perform {op : MemOp} (htrans : op.Translates env)
    (h : AbortsFrom OfBus s (op.perform env)) : TranslationClear env op.addr s := by
  rw [MemOp.perform_eq, MemOp.path, if_neg fun hno => hno.2 (htrans.aligned hno.1),
    htrans.paged, if_neg Bool.false_ne_true] at h
  exact .of_paged htrans.inPage h.left

end Translation

/-- An AMO is given to the MMU with an operation of the switch. -/
theorem amo_of_memOpOf {inst : BitVec 32} {c : RV64Core} {op : MemOp} {rd : BitVec 5}
    (h : memOpOf inst c = some (op, rd)) {f : AMOFunct} {addr size src : Word}
    (hop : op = .amo f addr size src) : f ≠ .lr ∧ f ≠ .sc := by
  subst hop
  unfold memOpOf at h
  split at h
  · unfold memOp16 at h
    split at h <;> cases h
  unfold memOp32 at h
  split at h
  · obtain ⟨p, -, hp⟩ := Option.map_eq_some_iff.mp h
    cases hp
  · obtain ⟨size, -, hp⟩ := Option.map_eq_some_iff.mp h
    cases hp
  · unfold amoOp at h
    split at h
    · cases h
    dsimp only at h
    split at h
    · cases h
    · split at h <;> cases h
    · cases h
    · rename_i hlr hsc _
      cases h
      exact ⟨hlr, hsc⟩
  · cases h

/-! ## The step -/

/-- Where a trap with this cause is sent. -/
def RV64Core.trapVector (cause : Word) (c : RV64Core) : Word :=
  if c.trapToSMode cause then vectorPC c.csrSTrapVecBaseAddr cause
  else vectorPC c.csrMTrapVecBaseAddr cause

/-- The core goes on at the vector of the trap. -/
theorem RV64Core.trapped_vector (cause tval : Word) (c : RV64Core) :
    (c.trapped cause tval).trapProgramCounter = c.trapVector cause := by
  obtain ⟨hto, ht⟩ | ⟨hto, ht⟩ := c.trapped_cases cause tval <;> rw [ht, trapVector, hto] <;> rfl

section Step

variable {β : Type} [MMIOBus β]

/-- The step gets as far as its fetch. -/
def Machine.Fetches (m : Machine β) : Prop :=
  m.begun.intTaken = none ∧ m.begun.currentProgramCounter % RV64Core.PC_ALIGN = 0

/-- The instruction reaches no assertion on the core `c` and the memory `s`. -/
structure InstClear (inst : BitVec 32) (c : RV64Core) (s : MMUSys β) : Prop where
  mtvec : ∀ v, csrWriteOf inst c = some (CSRAddr.mtvec.val, v) → TrapVector.mode v ≤ 1
  access : ∀ op rd, memOpOf inst c = some (op, rd) → op.Translates c.mmuEnv →
    TranslationClear c.mmuEnv op.addr s

/-- The step from `m` reaches none of the assertions that a guest can reach. -/
structure StepClear (m : Machine β) : Prop where
  fetch : m.Fetches → m.begun.mmuEnv.bareFetch = false →
    FetchClear m.begun.mmuEnv m.begun.currentProgramCounter m.clearLogs.mem
  vector : m.Fetches → ∀ buf s, m.fetch = .ok (.pageFault, buf) s →
    m.begun.currentProgramCounter ≠ m.begun.trapVector (Cause.exception .instrPgfault)
  execute : ∀ inst s, fetchInst.run m = .ok (some inst) ⟨m.begun, s⟩ → InstClear inst m.begun s

omit [MMIOBus β] in
/-- Every interrupt that is taken is one, and then the step has no fetch. -/
theorem preExec_clear {m : Machine β} (hstd : Standard m.begun.pendingEnabled) :
    Sat m.clearLogs.core preExec
      (fun _ c => c.needTrap = true ∨ m.begun.intTaken = none ∧ c = m.begun)
      (fun _ _ => False) := by
  rw [Sat, run_preExec, ← Machine.begun.eq_1]
  cases htaken : m.begun.intTaken with
  | none => exact .inr ⟨rfl, rfl⟩
  | some i =>
      have hi : i ≠ .noInt := fun he => RV64Core.intTaken_ne_noInt hstd (he ▸ htaken)
      dsimp only
      rw [run_raiseTrap_ok (needTrap_begun m) (RV64Core.trapCause_int hi)]
      exact .inl (needTrap_trapped _ _ _)

omit [MMIOBus β] in
/-- A failed fetch is raised with a cause of its own. -/
theorem fetchTrap_clear {m : Machine β} (hn : m.core.needTrap = false)
    {feedback : VAddrRWFeedback} (hfb : feedback ≠ .accessOk) (hmis : feedback ≠ .misAlign)
    (pc : Word)
    (hvector : feedback = .pageFault →
      pc ≠ m.core.trapVector (Cause.exception .instrPgfault)) :
    Sat m
      (do cassert (fetchCause feedback ≠ 0) .fetchCause
          onCore (raiseTrap (Cause.mk (fetchCause feedback) false) pc)
          pure none : Exec β (Option (BitVec 32)))
      (fun _ _ => True) (fun e _ => OfBus e) := by
  cases feedback with
  | accessOk => exact absurd rfl hfb
  | misAlign => exact absurd rfl hmis
  | accessFault =>
      have hc : TrapCause (Cause.mk (fetchCause .accessFault) false) := by decide
      refine .bind (cassert_sat (fun _ => .bind (onCore_sat ?_)) fun hno => absurd ?_ hno)
      · rw [Sat, run_raiseTrap_ok hn hc]
        exact .pure trivial
      · decide
  | pageFault =>
      refine .bind (cassert_sat (fun _ => .bind (onCore_sat ?_)) fun hno => absurd ?_ hno)
      · rw [Sat, run_raiseTrap hn, if_neg (by decide), if_neg fun hv => ?_]
        · exact .pure trivial
        · exact hvector rfl (hv.2.trans (m.core.trapped_vector _ _))
      · decide

/-- The fetch of a step that is clear asserts nothing. -/
theorem fetchInst_clear (hbus : BusAborts β) {m : Machine β}
    (hstd : Standard m.begun.pendingEnabled) (h : StepClear m) :
    Sat m fetchInst (fun _ _ => True) (fun e _ => OfBus e) := by
  refine .bind (.modify (.bind (onCore_sat ?_)))
  refine (preExec_clear hstd).mono (fun _ c hc => .bind (.get ?_)) fun _ _ => False.elim
  obtain hn | ⟨htaken, rfl⟩ := hc
  · rw [if_pos hn]
    exact .pure trivial
  refine .ite nofun fun _ => .ite (fun _ => ?_) fun halign => .bind (onMem_sat ?_)
  · rw [Sat, EStateM.run_bind, run_raiseException (needTrap_begun m) trapCause_instrMisalign]
    exact trivial
  · have heven : m.begun.currentProgramCounter % RV64Core.PC_ALIGN = 0 := not_not.mp halign
    have hfetch := vaddrInstFetch_clear hbus heven (h.fetch ⟨htaken, heven⟩)
    refine .intro (fun r s hr => ?_) fun e s hr => hfetch.error hr
    obtain ⟨feedback, buf⟩ := r
    refine .ite (fun hfb => ?_) fun _ => .pure trivial
    refine fetchTrap_clear (m := ⟨m.begun, s⟩) (needTrap_begun m) hfb (hfetch.ok hr) _ fun hpg => ?_
    exact h.vector ⟨htaken, heven⟩ buf s (hpg ▸ hr)

omit [MMIOBus β] in
/-- The reserved fields of the status word are zero at the exit of every step. -/
theorem stepExit_clear {m : Machine β} (hm : WithinMasks m.core) (inst : BitVec 32) (comp : Bool)
    (flags : ExecFlags) (h : flags.is_instr_illegal = true → m.core.needTrap = false) :
    Sat m (onCore (stepExit inst comp flags)) (fun _ _ => True) (fun e _ => OfBus e) := by
  have hexit : WithinMasks ((m.core.atExit inst flags).retire comp flags) := by
    refine WithinMasks.invariant.retire ?_ comp flags
    unfold RV64Core.atExit
    split
    · exact hm.trapped _ _
    · exact hm
  refine onCore_sat ?_
  rw [Sat, run_stepExit inst comp flags h, if_pos hexit.status.statusBlank]
  exact trivial

/-- The execution of an instruction that is clear asserts nothing. -/
theorem execAndExit_clear (hbus : BusAborts β) {m : Machine β} {inst : BitVec 32}
    (hm : WithinMasks m.core) (hn : m.core.needTrap = false) (h : InstClear inst m.core m.mem) :
    Sat m (execAndExit inst) (fun _ _ => True) (fun e _ => OfBus e) := by
  have heffect := execute_effect inst hn
  refine .bind (.intro (fun flags m' hr => ?_) fun e m' hr => ?_) <;> rw [hr] at heffect
  · cases heffect with
    | retires hret =>
        refine stepExit_clear ?_ inst _ flags fun hill =>
          absurd (hret.legal ▸ hill) Bool.false_ne_true
        exact hret.keeps WithinMasks.invariant hm fun _ _ _ => trivial
    | illegal => exact stepExit_clear hm inst _ _ fun _ => hn
    | traps cause tval flags s hflags hs =>
        exact stepExit_clear (hm.trapped cause tval) inst _ flags fun hill =>
          absurd (hflags ▸ hill) Bool.false_ne_true
  · cases heffect with
    | csrAborts value hwrite hmtvec => exact absurd (h.mtvec value hwrite) hmtvec
    | memAborts op rd e s hop hperform =>
        have hamo (f : AMOFunct) (addr size src : Word) (he : op = .amo f addr size src) :
            f ≠ .lr ∧ f ≠ .sc := amo_of_memOpOf hop he
        exact (perform_clear hbus hamo (h.access op rd hop)).error hperform

/-- A step from a state that is clear, with the control registers within their masks, reaches
no assertion. -/
theorem stepCoreAPI_clear (hbus : BusAborts β) {m : Machine β} (hm : WithinMasks m.core)
    (hstd : Standard m.core.csrIntEnable) (h : StepClear m) :
    Sat m stepCoreAPI (fun _ _ => True) (fun e _ => OfBus e) := by
  have hpending : Standard m.begun.pendingEnabled := hstd.mono fun j hj => by
    rw [RV64Core.pendingEnabled, BitVec.getLsbD_and, Bool.and_eq_true] at hj
    exact hj.2
  have hbegun : WithinMasks m.begun := WithinMasks.invariant.beginStep hm
  have hfetch := fetchInst_effect m
  refine .bind (.intro (fun r m' hr => ?_) fun e m' hr =>
    (fetchInst_clear hbus hpending h).error hr)
  rw [hr] at hfetch
  cases hfetch with
  | ready inst s hs =>
      exact execAndExit_clear (m := ⟨m.begun, s⟩) hbus hbegun (needTrap_begun m)
        (h.execute inst s hr)
  | traps cause tval s hs =>
      exact stepExit_clear (hbegun.trapped cause tval) 0 false .plain fun hill =>
        absurd hill Bool.false_ne_true

/-! ### What a step needs -/

/-- The run of a step that gets as far as its fetch. -/
theorem run_fetchInst {m : Machine β} (h : m.Fetches) :
    fetchInst.run m = match m.fetch with
      | .ok r s =>
          (if r.1 ≠ .accessOk then do
            cassert (fetchCause r.1 ≠ 0) .fetchCause
            onCore (raiseTrap (Cause.mk (fetchCause r.1) false) m.begun.currentProgramCounter)
            pure none
          else pure (some ((Bytes.toWord r.2).setWidth 32)) : Exec β (Option (BitVec 32))).run
            ⟨m.begun, s⟩
      | .error e s => .error e ⟨m.begun, s⟩ := by
  obtain ⟨htaken, heven⟩ := h
  have hpre : preExec.run m.clearLogs.core = .ok () m.begun := by
    rw [run_preExec, ← Machine.begun.eq_1, htaken]
  rw [fetchInst]
  simp only [EStateM.run_bind, EStateM.run_modify, EStateM.run_get, run_onCore_ok hpre,
    needTrap_begun, Bool.false_eq_true, if_false]
  rw [if_neg (not_not.mpr heven), EStateM.run_bind, Machine.run_onMem, Machine.fetch]
  cases (MMUSys.vaddrInstFetch m.begun.mmuEnv m.begun.currentProgramCounter 4
    (Bytes.ofWord 4 0)).run m.clearLogs.mem <;> rfl

/-- A CSR write that sets a reserved mode in `mtvec` fails its assertion. -/
theorem run_execute_mtvec {m : Machine β} {inst : BitVec 32} {v : Word}
    (h : csrWriteOf inst m.core = some (CSRAddr.mtvec.val, v)) (hv : ¬TrapVector.mode v ≤ 1) :
    (execute inst).run m = .error .mtvecMode m := by
  unfold csrWriteOf at h
  split at h
  case isFalse => cases h
  rename_i hinst
  split at h
  case h_2 => cases h
  rename_i newValue hcase
  split at h
  case isFalse => cases h
  rename_i hperm
  obtain ⟨old, hread, hpair⟩ := Option.map_eq_some_iff.mp h
  obtain ⟨ha, rfl⟩ := Prod.mk.inj hpair
  have hpriv : RVInst.funct3 inst ≠ Funct3.priv := fun he => by
    rw [csrCase, he] at hcase
    cases hcase
  have hmode : ¬(CSRAddr.ofVal (RVInst.csrIndex inst) = some .mtvec →
      TrapVector.mode (newValue old) ≤ 1) := by
    rw [ha, CSRAddr.ofVal_val]
    exact fun himp => hv (himp rfl)
  rw [execute, hinst.1, if_neg Bool.false_ne_true]
  simp only [exec32, EStateM.run_bind, EStateM.run_get, hinst.2, execSystem, if_neg hpriv, hcase,
    execCsr, hperm, Bool.not_true, Bool.false_eq_true, if_false, hread, if_true,
    Machine.run_onCore, run_csrWrite, if_neg hmode]

/-- An instruction that aborts in the bus only is clear. -/
theorem InstClear.of_aborts {m : Machine β} {inst : BitVec 32} (hn : m.core.needTrap = false)
    (h : AbortsFrom OfBus m (execute inst)) : InstClear inst m.core m.mem where
  mtvec v hwrite := by
    by_contra hv
    exact absurd (h _ _ (run_execute_mtvec hwrite hv)) (by decide)
  access op rd hop htrans := .of_perform htrans fun e s hr => by
    refine h e { m with mem := s } ?_
    rw [run_execute_of_memOp hop, op.run_exec rd hn, hr]

/-- A step that aborts in the bus only is clear. -/
theorem StepClear.of_aborts {m : Machine β} (h : AbortsFrom OfBus m stepCoreAPI) :
    StepClear m where
  fetch hfetches hbare := .of_aborts hfetches.2 hbare fun e s hr => by
    have hr : m.fetch = .error e s := hr
    exact h.left e ⟨m.begun, s⟩ (by rw [run_fetchInst hfetches, hr])
  vector hfetches buf s hr hpc := by
    have hn := needTrap_begun m
    have hv : m.begun.currentProgramCounter = (m.begun.trapped (Cause.exception .instrPgfault)
        m.begun.currentProgramCounter).trapProgramCounter :=
      hpc.trans (RV64Core.trapped_vector _ _ _).symm
    have hfail : fetchInst.run m = .error .fetchFaultAtTrapVector ⟨m.begun.trapped
        (Cause.exception .instrPgfault) m.begun.currentProgramCounter, s⟩ := by
      have hraise := run_raiseTrap hn (Cause.exception .instrPgfault) m.begun.currentProgramCounter
      rw [if_neg (by decide), if_pos ⟨by decide, hv⟩] at hraise
      rw [run_fetchInst hfetches, hr]
      show (do
        onCore (raiseTrap (Cause.exception .instrPgfault) m.begun.currentProgramCounter)
        pure none : Exec β (Option (BitVec 32))).run ⟨m.begun, s⟩ = _
      rw [EStateM.run_bind, run_onCore_error (m := ⟨m.begun, s⟩) hraise]
    exact absurd (h.left _ _ hfail) (by decide)
  execute inst s hr := .of_aborts (m := ⟨m.begun, s⟩) (needTrap_begun m) (h.right hr).left

end Step

section Run

variable {β : Type} [MMIOBus β]

/-- The step from `m` fails no assertion. -/
def FailsNoAssertion (m : Machine β) : Prop := AbortsFrom OfBus m stepCoreAPI

/-- From a state reached from reset a step fails no assertion exactly where it is clear, so
the assertions that `StepClear` does not speak of are never reached. -/
theorem failsNoAssertion_iff (hbus : BusAborts β) {P : Machine β → Prop} {c : RV64Core}
    (hc : CoreReach P c) (lines : IntStatus) (s : MMUSys β) :
    FailsNoAssertion (⟨{ c with intStatus := lines }, s⟩ : Machine β) ↔
      StepClear (⟨{ c with intStatus := lines }, s⟩ : Machine β) := by
  have hlines : WithinMasks { c with intStatus := lines } := hc.withinMasks.congr (.refl _) rfl
  exact ⟨.of_aborts, fun h => .of_sat (stepCoreAPI_clear hbus hlines hc.standard h)⟩

end Run

/-- The trap from U-mode at the end of that program. -/
theorem failsNoAssertion_iff_visitUser :
    FailsNoAssertion (runFrom visitUser 6) ∧ StepClear (runFrom visitUser 6) := by
  obtain ⟨fb, hrun⟩ := visitUser_returns.run (i := 6) (by decide)
  have hno : FailsNoAssertion (runFrom visitUser 6) := fun e m' hr => by
    rw [hrun] at hr
    cases hr
  have hc : CoreReach (fun _ : Machine RAMBus => True)
      (Run.final (stepCoreAPI.run (runFrom visitUser 5))).core :=
    ReturnsFor.reach (fun i hi => visitUser_returns i (Nat.lt_succ_of_lt hi)) fun _ _ => trivial
  have hiff := failsNoAssertion_iff RAMBus.busAborts hc default (runFrom visitUser 6).mem
  rw [← runFrom_succ visitUser 5] at hiff
  exact ⟨hno, hiff.mp hno⟩

/-- `csrrwi x0, mtvec, 2`. -/
def reservedMtvec : List Byte := [0x73, 0x50, 0x51, 0x30]

/-- The first instruction of that guest ends the emulator. -/
theorem guest_fails_assertion :
    ¬ ∀ c, CoreReach (fun _ : Machine RAMBus => True) c → ∀ lines s,
      FailsNoAssertion (⟨{ c with intStatus := lines }, s⟩ : Machine RAMBus) := by
  intro hall
  have hrun : stepCoreAPI.run (runFrom reservedMtvec 0)
      = .error .mtvecMode (Run.final (stepCoreAPI.run (runFrom reservedMtvec 0))) := by rfl
  have hno := hall _ (.reset default) default (runFrom reservedMtvec 0).mem
  exact absurd (hno .mtvecMode _ hrun) (by decide)

end MEmu
