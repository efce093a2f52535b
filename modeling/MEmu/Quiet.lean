import MEmu.MemOp
import MEmu.Lib.Run

/-!
# Translations and fetches are quiet

`Quiet s s'` collects what address translation and instruction fetch leave alone:
the bus is only read, the log only grows by walk and fetch accesses, and the
reservation is neither taken nor dropped.  Every computation of the MMU short of
the data access itself keeps it.
-/

namespace MEmu

open Run (Sat Keeps)

variable {β : Type}

/-! ## Building blocks -/

/-- A failed assertion leaves the state as it is. -/
theorem cassert_sat {σ : Type} {s : σ} {c : Prop} [Decidable c] {site : Abort}
    {Q : Unit → σ → Prop} {E : Abort → σ → Prop} (hok : c → Q () s) (herr : ¬c → E site s) :
    Sat s (cassert c site) Q E :=
  .ite (fun h => .pure (hok h)) fun h => .throw (herr h)

/-- An assertion changes nothing. -/
theorem cassert_keeps {σ : Type} {R : σ → σ → Prop} [Std.Refl R] {c : Prop} [Decidable c]
    (site : Abort) : Keeps R (cassert c site) :=
  .ite (.pure _) (.throw _)

/-- What runs on the MMU leaves the bus and the log as they are. -/
theorem MMUSys.onMMU_sat {α : Type} {s : MMUSys β} {x : EStateM Abort RV64SV39MMU α}
    {Q : α → MMUSys β → Prop} {E : Abort → MMUSys β → Prop}
    (h : Sat s.mmu x (fun a m => Q a { s with mmu := m }) (fun e m => E e { s with mmu := m })) :
    Sat s (MMUSys.onMMU x) Q E :=
  .part (fun a m hr => by rw [MMUSys.run_onMMU, hr])
    (fun e m hr => by rw [MMUSys.run_onMMU, hr]) h

/-- A call of the bus leaves the MMU alone and is one entry of the log. -/
theorem busCall_sat {α : Type} {s : MMUSys β} {kind : AccessKind} {addr size : Word}
    {feedback : α → FuncReturnFeedback} {call : EStateM Abort β α}
    {Q : α → MMUSys β → Prop} {E : Abort → MMUSys β → Prop}
    (hok : ∀ a b, call.run s.sysBus = .ok a b →
      Q a { s with
        sysBus := b
        busLog := s.busLog ++ [⟨kind, addr, size, decide (feedback a = .ok)⟩] })
    (herr : ∀ e b, call.run s.sysBus = .error e b →
      E e { s with sysBus := b, busLog := s.busLog ++ [⟨kind, addr, size, false⟩] }) :
    Sat s (busCall kind addr size feedback call) Q E := by
  refine .intro (fun a s' hr => ?_) fun e s' hr => ?_
  all_goals
    rw [run_busCall] at hr
    cases hx : call.run s.sysBus <;> rw [hx] at hr <;> cases hr
  · exact hok _ _ hx
  · exact herr _ _ hx

/-! ## The relation -/

variable [MMIOBus β]

/-- `b'` is reached from `b` by bus reads. -/
inductive BusReads : β → β → Prop where
  | refl (b : β) : BusReads b b
  | read {b b' : β} (h : BusReads b b') (addr size : Word) (buffer : List Byte) :
      BusReads b (Run.final ((MMIOBus.paddrReadBuffer addr size buffer).run b'))

/-- One sequence of reads after another. -/
theorem BusReads.trans {b b' b'' : β} (h : BusReads b b') (h' : BusReads b' b'') :
    BusReads b b'' := by
  induction h' with
  | refl => exact h
  | read _ addr size buffer ih => exact ih.read addr size buffer

/-- What a walk leaves alone, which is all but the bus. -/
structure Walks (s s' : MMUSys β) : Prop where
  mmu : s'.mmu = s.mmu
  reads : BusReads s.sysBus s'.sysBus
  log : ∃ new, s'.busLog = s.busLog ++ new ∧ ∀ a ∈ new, a.kind = .walk

instance : Std.Refl (Walks (β := β)) := ⟨fun _ => ⟨rfl, .refl _, [], by simp, by simp⟩⟩

instance : IsTrans (MMUSys β) Walks where
  trans s s' s'' h h' := by
    obtain ⟨new, hlog, hnew⟩ := h.log
    obtain ⟨new', hlog', hnew'⟩ := h'.log
    refine ⟨h'.mmu.trans h.mmu, h.reads.trans h'.reads, new ++ new', ?_, ?_⟩
    · rw [hlog', hlog, List.append_assoc]
    · intro a ha
      exact (List.mem_append.mp ha).elim (hnew a) (hnew' a)

/-- A walk or a fetch access. -/
def AccessKind.isTranslation : AccessKind → Bool
  | walk | fetch => true
  | _ => false

/-- The four fields of the reservation. -/
def RV64SV39MMU.reservation (m : RV64SV39MMU) : Bool × Word × Word × Word :=
  (m.lr_valid, m.lr_pa, m.lr_size, m.lr_hart)

/-- What translation and fetch leave alone. -/
structure Quiet (s s' : MMUSys β) : Prop where
  reservation : s'.mmu.reservation = s.mmu.reservation
  reads : BusReads s.sysBus s'.sysBus
  log : ∃ new, s'.busLog = s.busLog ++ new ∧ ∀ a ∈ new, a.kind.isTranslation = true

namespace Quiet

theorem lr_valid {s s' : MMUSys β} (h : Quiet s s') : s'.mmu.lr_valid = s.mmu.lr_valid :=
  congrArg Prod.fst h.reservation

theorem refl (s : MMUSys β) : Quiet s s := ⟨rfl, .refl _, [], by simp, by simp⟩

theorem trans {s s' s'' : MMUSys β} (h : Quiet s s') (h' : Quiet s' s'') : Quiet s s'' := by
  obtain ⟨new, hlog, hnew⟩ := h.log
  obtain ⟨new', hlog', hnew'⟩ := h'.log
  refine ⟨h'.reservation.trans h.reservation, h.reads.trans h'.reads, new ++ new', ?_, ?_⟩
  · rw [hlog', hlog, List.append_assoc]
  · intro a ha
    rcases List.mem_append.mp ha with ha | ha
    · exact hnew a ha
    · exact hnew' a ha

instance : Std.Refl (Quiet (β := β)) := ⟨refl⟩

instance : IsTrans (MMUSys β) Quiet := ⟨fun _ _ _ => trans⟩

end Quiet

/-- Reads of entries are quiet. -/
theorem Walks.quiet {s s' : MMUSys β} (h : Walks s s') : Quiet s s' := by
  obtain ⟨new, hlog, hnew⟩ := h.log
  exact ⟨congrArg RV64SV39MMU.reservation h.mmu, h.reads, new, hlog, fun a ha => by rw [hnew a ha]; rfl⟩

/-! ## Quiet steps -/

namespace MMUSys

/-- The MMU functions that do not touch the reservation. -/
theorem onMMU_quiet {α : Type} {x : EStateM Abort RV64SV39MMU α}
    (h : Keeps (fun m m' => m'.reservation = m.reservation) x) : Keeps Quiet (onMMU (β := β) x) :=
  fun s => onMMU_sat <| (h s.mmu).mono
    (fun _ _ hm => ⟨hm, .refl _, [], by simp, by simp⟩)
    fun _ _ hm => ⟨hm, .refl _, [], by simp, by simp⟩

end MMUSys

/-- One read. -/
theorem BusReads.one {b b' : β} {addr size : Word} {buffer : List Byte}
    (h : Run.final ((MMIOBus.paddrReadBuffer addr size buffer).run b) = b') : BusReads b b' :=
  h ▸ .read (.refl b) addr size buffer

/-- A walk or a fetch access is quiet. -/
theorem busRead_quiet {kind : AccessKind} (hkind : kind.isTranslation = true) (addr size : Word)
    (buffer : List Byte) : Keeps Quiet (busRead (β := β) kind addr size buffer) := by
  intro s
  refine busCall_sat (fun r b h => ?_) fun e b h => ?_
  all_goals
    refine ⟨rfl, .one (by rw [h]; rfl), _, rfl, ?_⟩
    simpa using hkind

/-! ## Translation -/

namespace MMUSys

/-- The read of an entry is a read of the walk. -/
theorem readPTE_walks (env : MMUEnv) (page_table_addr : Word) (vpn : BitVec 9) :
    Keeps Walks (readPTE (β := β) env page_table_addr vpn) := by
  have hread : Keeps Walks (busRead (β := β) .walk (page_table_addr + vpn.setWidth 64 * 8) 8
      (env.uninit 8)) := by
    intro s
    refine busCall_sat (fun r b h => ?_) fun e b h => ?_
    all_goals
      refine ⟨rfl, .one (by rw [h]; rfl), _, rfl, fun a ha => ?_⟩
      rw [List.mem_singleton.mp ha]
  exact .bind hread fun r => .bind (cassert_keeps _) fun _ => .pure _

/-- A walk makes no other accesses. -/
theorem pageTableWalk_walks (env : MMUEnv) (vaddr : Word) :
    Keeps Walks (pageTableWalk (β := β) env vaddr) := by
  refine .bind (readPTE_walks env _ _) fun l2_pte => .ite (.pure _) (.ite (.pure _) ?_)
  refine .bind (readPTE_walks env _ _) fun l1_pte => .ite (.pure _) (.ite (.pure _) ?_)
  exact .bind (readPTE_walks env _ _) fun l0_pte => .ite (.pure _) (.pure _)

theorem pageTableWalk_quiet (env : MMUEnv) (vaddr : Word) :
    Keeps Quiet (pageTableWalk (β := β) env vaddr) :=
  fun s => (pageTableWalk_walks env vaddr s).mono (fun _ _ => Walks.quiet) fun _ _ => Walks.quiet

/-- The scan leaves the reservation as it is. -/
theorem scanTLB_keeps (satp vaddr : Word) (slots : List TLBIndex) (ptr : Option TLBIndex) :
    Keeps (fun m m' => m'.reservation = m.reservation)
      (RV64SV39MMU.scanTLB satp vaddr slots ptr) := by
  intro m
  induction slots generalizing m ptr with
  | nil => exact .pure rfl
  | cons i slots ih =>
      refine .bind (.get (.ite (fun _ => ?_) fun _ => ih ptr m))
      refine .bind (cassert_sat (fun _ => .bind (.set ?_)) fun _ => rfl)
      exact ih (some i) (m.cachePut (vaddr &&& (m.tlb i).pagesize.mask) (some i))

/-- And so does the lookup. -/
theorem lookupTLB_keeps (satp vaddr : Word) :
    Keeps (fun m m' => m'.reservation = m.reservation) (lookupTLB satp vaddr) := by
  intro m
  refine .bind (.get ?_)
  split
  · exact .pure rfl
  split
  · exact .pure rfl
  split
  · exact .pure rfl
  exact scanTLB_keeps satp vaddr _ none m

theorem writeTLB_reservation (satp leaf_pte : Word) (page_size : PageSize) (vaddr : Word)
    (m : RV64SV39MMU) :
    (m.writeTLB satp leaf_pte page_size vaddr).2.reservation = m.reservation := rfl

/-- A translation is quiet. -/
theorem getTLBEntry_quiet (env : MMUEnv) (vaddr : Word) :
    Keeps Quiet (getTLBEntry (β := β) env vaddr) := by
  refine .bind (cassert_keeps _) fun _ => .bind (onMMU_quiet (lookupTLB_keeps _ _)) fun r => ?_
  cases r with
  | some i => exact .pure _
  | none =>
      refine .ite (.pure _) (.bind (pageTableWalk_quiet env vaddr) fun leaf => ?_)
      cases leaf with
      | none => exact .pure _
      | some leaf =>
          refine .bind (onMMU_quiet fun m => ?_) fun _ => .pure _
          exact writeTLB_reservation env.satp leaf.1 leaf.2 vaddr m

/-- The entry lookup, from what is known of the lookup in the TLB and of the walk
after a miss, which fills the slot swapped out. -/
theorem getTLBEntry_sat {env : MMUEnv} {vaddr : Word} {s : MMUSys β}
    {L : Option TLBIndex → RV64SV39MMU → Prop} {Q : Option TLBIndex → MMUSys β → Prop}
    {E : Abort → MMUSys β → Prop}
    (hcanonical : ¬VAddr.canonical vaddr = true → E .canonical s)
    (hlook : VAddr.canonical vaddr = true →
      Sat s.mmu (lookupTLB env.satp vaddr) L (fun e m => E e { s with mmu := m }))
    (hhit : ∀ i m, L (some i) m → Q (some i) { s with mmu := m })
    (hoff : ∀ m, L none m → Satp.mode env.satp ≠ 8 → Q none { s with mmu := m })
    (hwalk : ∀ m, L none m → Satp.mode env.satp = 8 →
      Sat { s with mmu := m } (pageTableWalk env vaddr)
        (fun leaf s₁ => (leaf = none → Q none s₁) ∧ ∀ leaf_pte page_size,
          leaf = some (leaf_pte, page_size) → Q (some s₁.mmu.lastSwappedIndex)
            { s₁ with mmu := (s₁.mmu.writeTLB env.satp leaf_pte page_size vaddr).2 }) E) :
    Sat s (getTLBEntry env vaddr) Q E := by
  refine .bind (cassert_sat (fun hv => .bind (onMMU_sat ?_)) hcanonical)
  refine (hlook hv).mono (fun r m hL => ?_) fun _ _ h => h
  cases r with
  | some i => exact .pure (hhit i m hL)
  | none =>
      refine .ite (fun hmode => .pure (hoff m hL hmode)) fun hmode => .bind ?_
      refine (hwalk m hL (not_not.mp hmode)).mono (fun leaf s₁ hW => ?_) fun _ _ h => h
      cases leaf with
      | none => exact .pure (hW.1 rfl)
      | some leaf => exact .bind (onMMU_sat (.modifyGet (.pure (hW.2 _ _ rfl))))

end MMUSys

/-! ## The paged path -/

section Paged

variable {φ : Type} {env : MMUEnv} {begin_addr size : Word} {misalign pgfault : φ}
  {check : SV39TLBEntry → Option φ} {s : MMUSys β}

/-- The access stays in a page. -/
def InPage (begin_addr size : Word) : Prop := begin_addr >>> 12 = (begin_addr + size - 1) >>> 12

/-- An aligned access does not cross a page. -/
theorem InPage.of_aligned {begin_addr size : Word} (hsize : size ∈ ([1, 2, 4, 8] : List Word))
    (hrem : begin_addr % size = 0) : InPage begin_addr size := by
  have hrem : begin_addr.toNat % size.toNat = 0 := by
    rw [← BitVec.toNat_umod, hrem]
    rfl
  have hnat : size.toNat = 1 ∨ size.toNat = 2 ∨ size.toNat = 4 ∨ size.toNat = 8 := by
    simp only [List.mem_cons, List.not_mem_nil, or_false] at hsize
    rcases hsize with h | h | h | h <;> rw [h] <;> decide
  apply BitVec.eq_of_toNat_eq
  rw [BitVec.toNat_ushiftRight, BitVec.toNat_ushiftRight, Nat.shiftRight_eq_div_pow,
    Nat.shiftRight_eq_div_pow]
  rcases hnat with hk | hk | hk | hk <;>
    · rw [hk] at hrem
      bv_omega

/-- The paged path, from what is known of the entry lookup. -/
theorem pagedAddr_sat {T : Option TLBIndex → MMUSys β → Prop} {Q : Except φ Word → MMUSys β → Prop}
    {E : Abort → MMUSys β → Prop}
    (hget : InPage begin_addr size → Sat s (MMUSys.getTLBEntry env begin_addr) T E)
    (hmisalign : ¬InPage begin_addr size → Q (.error misalign) s)
    (hpgfault : ∀ s', T none s' → Q (.error pgfault) s')
    (hcheck : ∀ i s' fault, T (some i) s' → check (s'.mmu.tlb i) = some fault →
      Q (.error fault) s')
    (hsize : ∀ i s', T (some i) s' → (s'.mmu.tlb i).pagesize.bytes = 0 → E .pageSize s')
    (hok : ∀ i s', T (some i) s' → check (s'.mmu.tlb i) = none →
      Q (.ok ((s'.mmu.tlb i).ppa + begin_addr % (s'.mmu.tlb i).pagesize.bytes)) s') :
    Sat s (MMUSys.pagedAddr env begin_addr size misalign pgfault check) Q E := by
  refine .ite (fun hno => .pure (hmisalign hno)) fun hin => .bind ?_
  refine (hget (not_not.mp hin)).mono (fun r s' hT => ?_) ?_
  · cases r with
    | none => exact .pure (hpgfault s' hT)
    | some i =>
        refine .bind (.get ?_)
        dsimp only
        split
        · exact .pure (hcheck i s' _ hT ‹_›)
        · exact .bind (cassert_sat (fun _ => .pure (hok i s' hT ‹_›)) fun hzero =>
            hsize i s' hT (not_not.mp hzero))
  · exact fun _ _ h => h

/-- The translation of an access, with its checks, is quiet. -/
theorem pagedAddr_quiet : 
    Keeps Quiet (MMUSys.pagedAddr (β := β) env begin_addr size misalign pgfault check) :=
  fun s => pagedAddr_sat (fun _ => MMUSys.getTLBEntry_quiet env begin_addr s) (fun _ => .refl s)
    (fun _ h => h) (fun _ _ _ h _ => h) (fun _ _ h _ => h) fun _ _ h _ => h

end Paged

/-! ## Fetch -/

namespace MMUSys

/-- A read that is one of a translation is quiet. -/
theorem readAt_quiet {kind : AccessKind} (hkind : kind.isTranslation = true) (addr size : Word)
    (buffer : List Byte) : Keeps Quiet (readAt (β := β) kind addr size buffer) :=
  .bind (busRead_quiet hkind addr size buffer) fun _ => .pure _

/-- A fetch within a page is quiet. -/
theorem instFetchWhole_quiet (env : MMUEnv) (begin_addr size : Word) (buffer : List Byte) :
    Keeps Quiet (instFetchWhole (β := β) env begin_addr size buffer) := by
  refine .bind (cassert_keeps _) fun _ => .ite (readAt_quiet rfl _ _ _) ?_
  refine .bind pagedAddr_quiet fun r => ?_
  cases r with
  | error fault => exact .pure _
  | ok paddr => exact readAt_quiet rfl _ _ _

/-- A fetch is quiet. -/
theorem vaddrInstFetch_quiet (env : MMUEnv) (begin_addr size : Word) (buffer : List Byte) :
    Keeps Quiet (vaddrInstFetch (β := β) env begin_addr size buffer) := by
  refine .ite (.bind (instFetchWhole_quiet env _ _ _) fun r => ?_) (instFetchWhole_quiet env _ _ _)
  exact .ite (.pure _) (.bind (instFetchWhole_quiet env _ _ _) fun _ => .pure _)

end MMUSys

end MEmu
