import MEmu.Permission
import MEmu.Assertions

/-!
# The permission of a store

The way of a store, of an atomic operation and of a store-conditional to the bus is written
out three times.  The three refuse the same entries, by the rule of Sv39 for the mode that
counts, and reach the same physical address where they refuse none.
-/

namespace MEmu

open Run (Sat)
open RV64SV39MMU

/-! ## The rule -/

/-- The rule of Sv39 for a store through an entry. -/
def StoreAllowed (env : MMUEnv) (e : SV39TLBEntry) : Prop :=
  e.A = true ∧ e.D = true ∧ e.W = true ∧ (env.priv = .uMode → e.U = true) ∧
    (env.priv = .sMode → MStatus.sum env.status = true ∨ e.U = false)

instance (env : MMUEnv) (e : SV39TLBEntry) : Decidable (StoreAllowed env e) :=
  inferInstanceAs (Decidable (_ ∧ _))

/-- The mode is below M, or stores have the rights of a mode below M, and `satp` selects Sv39. -/
structure StoresTranslated (env : MMUEnv) : Prop where
  priv : env.currentPrivMode ≠ .mMode ∨
    MStatus.mprv env.status = true ∧ MStatus.mpp env.status ≠ PrivMode.mMode.val
  mode : Satp.mode env.satp = 8

theorem StoresTranslated.paged {env : MMUEnv} (h : StoresTranslated env) :
    env.bareData = false := by
  rw [MMUEnv.bareData, h.mode]
  rcases h.priv with hmode | ⟨hmprv, hmpp⟩
  · simp [hmode]
  · simp [hmprv, hmpp]

/-- The check is the rule. -/
theorem storeCheck_none_iff {φ : Type} (env : MMUEnv) (pgfault : φ) (e : SV39TLBEntry) :
    storeCheck env pgfault e = none ↔ StoreAllowed env e := by
  unfold storeCheck StoreAllowed
  split
  · rename_i hno
    refine iff_of_false nofun fun h => ?_
    simp [h.1, h.2.1, h.2.2.1] at hno
  rename_i hflags
  simp only [Bool.or_eq_true, Bool.not_eq_true', not_or, Bool.not_eq_false] at hflags
  obtain ⟨⟨hA, hD⟩, hW⟩ := hflags
  split
  · rename_i hu
    rw [Bool.and_eq_true, beq_iff_eq, Bool.not_eq_true'] at hu
    refine iff_of_false nofun fun h => ?_
    rw [h.2.2.2.1 hu.1] at hu
    cases hu.2
  rename_i hu
  split
  · rename_i hs
    simp only [Bool.and_eq_true, beq_iff_eq, Bool.not_eq_true'] at hs
    refine iff_of_false nofun fun h => ?_
    have := h.2.2.2.2 hs.1.2
    simp [hs.1.1, hs.2] at this
  · rename_i hs
    refine iff_of_true rfl ⟨hA, hD, hW, fun hp => ?_, fun hp => ?_⟩
    · simpa [hp] using hu
    · cases hU : e.U with
      | false => exact .inr rfl
      | true => exact .inl (by simpa [hp, hU] using hs)

theorem storeCheck_some {φ : Type} {env : MMUEnv} (pgfault : φ) {e : SV39TLBEntry}
    (h : ¬StoreAllowed env e) : storeCheck env pgfault e = some pgfault := by
  cases hc : storeCheck env pgfault e with
  | none => exact absurd ((storeCheck_none_iff env pgfault e).mp hc) h
  | some fault => rw [storeCheck_fault hc]

/-! ## The three paths -/

section Paths

variable {δ : Type}

/-- The address is one of a registered device. -/
def MEmuMMIOBus.Owned (b : MEmuMMIOBus δ) (addr : Word) : Prop :=
  ∃ h ∈ b.mmioDevs, (b.obj h).isAddrInRange addr = true

theorem MEmuMMIOBus.Owned.found {b : MEmuMMIOBus δ} {addr : Word} (h : b.Owned addr) :
    (b.findDevAccordingToAddr addr).1 ≠ none := by
  obtain ⟨d, hd, hin⟩ := h
  rw [findDev_fst]
  intro hnone
  obtain ⟨-, hscan⟩ := Option.or_eq_none_iff.mp hnone
  exact List.find?_eq_none.mp hscan d hd hin

variable [MMIODevI δ]

/-- The path ends in a page fault. -/
def PageFaults {σ α : Type} (fault : α → Prop) (r : EStateM.Result Abort σ α) : Prop :=
  ∃ a s', r = .ok a s' ∧ fault a

/-- The accesses of the log after `s₁` are of `size` bytes at `paddr`, and there is one where
`made` holds. -/
def AccessesAt {β : Type} (paddr size : Word) (made : Prop) (s₁ s' : MMUSys β) : Prop :=
  ∃ new, s'.busLog = s₁.busLog ++ new ∧ (∀ a ∈ new, a.addr = paddr ∧ a.size = size) ∧
    (made → new ≠ [])

/-- A store, an atomic operation and a store-conditional of `size` bytes at `addr`. -/
structure Stores where
  addr : Word
  size : Word
  data : List Byte
  op : AMOFunct
  src : Word

namespace Stores

variable (w : Stores) (env : MMUEnv)

def store : MMUM (MEmuMMIOBus δ) VAddrRWFeedback :=
  MMUSys.vaddrWriteBuffer env w.addr w.size w.data

def atomic : MMUM (MEmuMMIOBus δ) (ExecFeedbackCode × Word) :=
  MMUSys.vaddrAtomicMemOperation env w.addr w.size w.op w.src

def conditional : MMUM (MEmuMMIOBus δ) (ExecFeedbackCode × Bool) :=
  MMUSys.vaddrStoreConditional env w.addr w.size w.data

/-- Where the entry translates the address to. -/
def place (e : SV39TLBEntry) : Word := e.ppa + w.addr % e.pagesize.bytes

/-- Where `fault` holds all three end in a store page fault, and elsewhere none does. -/
structure Faults (s : MMUSys (MEmuMMIOBus δ)) (fault : Prop) : Prop where
  store : PageFaults (· = .pageFault) ((w.store env).run s) ↔ fault
  atomic : PageFaults (·.1 = .storePgfault) ((w.atomic env).run s) ↔ fault
  conditional : PageFaults (·.1 = .storePgfault) ((w.conditional env).run s) ↔ fault

/-- All three access the bytes at `paddr`, but for a store-conditional without its reservation,
which accesses nothing. -/
structure Reaches (s s₁ : MMUSys (MEmuMMIOBus δ)) (paddr : Word) : Prop where
  store : AccessesAt paddr w.size True s₁ (Run.final ((w.store env).run s))
  atomic : AccessesAt paddr w.size True s₁ (Run.final ((w.atomic env).run s))
  conditional : AccessesAt paddr w.size
    (MMUSys.reservationLost env w.addr w.size s₁.mmu = false) s₁
    (Run.final ((w.conditional env).run s))

/-- The three paths end alike, and by the rule: where the lookup of the entry ends the process,
so does each of them, where it finds none they fault, and where it finds one the rule decides. -/
def Agree (s : MMUSys (MEmuMMIOBus δ)) : Prop :=
  match (MMUSys.getTLBEntry env w.addr).run s with
  | .error e s₁ =>
      (w.store env).run s = .error e s₁ ∧ (w.atomic env).run s = .error e s₁ ∧
        (w.conditional env).run s = .error e s₁
  | .ok none _ => w.Faults env s True
  | .ok (some i) s₁ =>
      w.Faults env s ¬StoreAllowed env (s₁.mmu.tlb i) ∧
        (StoreAllowed env (s₁.mmu.tlb i) → w.Reaches env s s₁ (w.place (s₁.mmu.tlb i)))

end Stores

/-! ## One path -/

/-- A path from its entry on: the fault `ret` where the rule refuses, and `tail` at the place
where it does not. -/
def afterEntry {β α : Type} (env : MMUEnv) (addr : Word) (ret : α) (tail : Word → MMUM β α) :
    EStateM.Result Abort (MMUSys β) (Option TLBIndex) → EStateM.Result Abort (MMUSys β) α
  | .error e s₁ => .error e s₁
  | .ok none s₁ => .ok ret s₁
  | .ok (some i) s₁ =>
      if StoreAllowed env (s₁.mmu.tlb i) then
        (tail ((s₁.mmu.tlb i).ppa + addr % (s₁.mmu.tlb i).pagesize.bytes)).run s₁
      else .ok ret s₁

/-- The paged path of the three, within a page. -/
theorem run_storePath {β φ α : Type} [MMIOBus β] {env : MMUEnv} {addr size : Word}
    {misalign pgfault : φ} {f : Except φ Word → MMUM β α} (ret : α)
    (hret : f (.error pgfault) = pure ret) (s : MMUSys β) (hpage : InPage addr size) :
    (MMUSys.pagedAddr env addr size misalign pgfault (storeCheck env pgfault) >>= f).run s
      = afterEntry env addr ret (fun paddr => f (.ok paddr)) ((MMUSys.getTLBEntry env addr).run s) := by
  have hvalid := @getTLBEntry_valid β _ env addr s
  rw [InPage] at hpage
  rw [EStateM.run_bind]
  cases hentry : (MMUSys.getTLBEntry env addr).run s with
  | error e s₁ =>
      rw [MMUSys.pagedAddr, if_neg (not_not.mpr hpage), EStateM.run_bind, hentry]
      rfl
  | ok r s₁ =>
      cases r with
      | none =>
          rw [MMUSys.pagedAddr, if_neg (not_not.mpr hpage), EStateM.run_bind, hentry]
          exact congrArg (EStateM.run · s₁) hret
      | some i =>
          rw [run_pagedAddr hpage hentry (hvalid.ok hentry).bytes, afterEntry]
          by_cases hallowed : StoreAllowed env (s₁.mmu.tlb i)
          · rw [(storeCheck_none_iff env pgfault _).mpr hallowed, if_pos hallowed]
          · rw [storeCheck_some pgfault hallowed, if_neg hallowed]
            exact congrArg (EStateM.run · s₁) hret

/-- A path faults exactly where the rule refuses, if it does not fault by itself. -/
theorem pageFaults_afterEntry {β α : Type} {env : MMUEnv} {addr : Word} {ret : α}
    {tail : Word → MMUM β α} {fault : α → Prop} {i : TLBIndex} {s₁ : MMUSys β} (hret : fault ret)
    (htail : StoreAllowed env (s₁.mmu.tlb i) →
      Sat s₁ (tail ((s₁.mmu.tlb i).ppa + addr % (s₁.mmu.tlb i).pagesize.bytes))
        (fun a _ => ¬fault a) (fun _ _ => True)) :
    PageFaults fault (afterEntry env addr ret tail (.ok (some i) s₁)) ↔
      ¬StoreAllowed env (s₁.mmu.tlb i) := by
  rw [afterEntry]
  split
  · refine iff_of_false ?_ (not_not.mpr ‹_›)
    rintro ⟨a, s', hr, hfault⟩
    exact (htail ‹_›).ok hr hfault
  · exact iff_of_true ⟨_, _, rfl, hret⟩ ‹_›

/-! ### The accesses -/

section Tails

variable {δ : Type} [MMIODevI δ] {env : MMUEnv} {paddr size : Word}
  {s₁ : MMUSys (MEmuMMIOBus δ)}

/-- A store on a device does not fault. -/
theorem store_tail_clear (hown : s₁.sysBus.Owned paddr) (data : List Byte) :
    Sat s₁ (do
        let fb ← busWrite .store paddr size data
        pure (if fb = .ok then VAddrRWFeedback.accessOk else .pageFault))
      (fun a _ => ¬a = .pageFault) (fun _ _ => True) := by
  refine .bind (busCall_sat (fun fb b hr => .pure ?_) fun _ _ _ => trivial)
  rw [if_pos ((MEmuMMIOBus.paddrWriteBuffer_found hown.found size data).ok hr)]
  decide

theorem store_tail_access (data : List Byte) :
    Sat s₁ (do
        let fb ← busWrite .store paddr size data
        pure (if fb = .ok then VAddrRWFeedback.accessOk else .pageFault))
      (fun _ => AccessesAt paddr size True s₁) (fun _ => AccessesAt paddr size True s₁) := by
  refine .bind (busCall_sat (fun fb b _ => .pure ?_) fun e b _ => ?_)
  · exact ⟨_, rfl, by simp, fun _ => List.cons_ne_nil _ _⟩
  · exact ⟨_, rfl, by simp, fun _ => List.cons_ne_nil _ _⟩

/-- An atomic operation reports no page fault of its own. -/
theorem atomic_tail_clear (op : AMOFunct) (src : Word) :
    Sat s₁ (do
        let (amo_fb, dst) ← MMUSys.paAmoOp env paddr size op src
        pure (if amo_fb then ExecFeedbackCode.ok else .storeAccFault, dst))
      (fun a _ => ¬a.1 = .storePgfault) (fun _ _ => True) := by
  refine .bind_any fun r _ => .pure ?_
  cases r.1 <;> exact ExecFeedbackCode.noConfusion

theorem atomic_tail_access (op : AMOFunct) (src : Word) :
    Sat s₁ (do
        let (amo_fb, dst) ← MMUSys.paAmoOp env paddr size op src
        pure (if amo_fb then ExecFeedbackCode.ok else .storeAccFault, dst))
      (fun _ => AccessesAt paddr size True s₁) (fun _ => AccessesAt paddr size True s₁) := by
  have hread (b : MEmuMMIOBus δ) (done : Bool) : AccessesAt paddr size True s₁
      { s₁ with sysBus := b, busLog := s₁.busLog ++ [⟨.amoRead, paddr, size, done⟩] } :=
    ⟨_, rfl, by simp, fun _ => List.cons_ne_nil _ _⟩
  have hboth (b : MEmuMMIOBus δ) (done done' : Bool) : AccessesAt paddr size True s₁
      { s₁ with
        sysBus := b
        busLog := s₁.busLog ++ [⟨.amoRead, paddr, size, done⟩] ++
          [⟨.amoWrite, paddr, size, done'⟩] } :=
    ⟨_, List.append_assoc .., by simp, fun _ => List.cons_ne_nil _ _⟩
  refine .bind (.bind (busCall_sat (fun r b _ => ?_) fun e b _ => hread b _))
  refine .ite (fun _ => .pure (.pure (hread b _))) fun _ => ?_
  dsimp only
  split
  · exact .throw (hread b _)
  · exact .bind (busCall_sat (fun _ b' _ => .pure (.pure (hboth b' _ _))) fun _ b' _ => hboth b' _ _)

/-- A store-conditional on a device does not fault, with its reservation or without. -/
theorem conditional_tail_clear (hown : s₁.sysBus.Owned paddr) (addr : Word) (data : List Byte) :
    Sat s₁ (MMUSys.conditionalWrite env addr paddr size data .storePgfault)
      (fun a _ => ¬a.1 = .storePgfault) (fun _ _ => True) := by
  refine .bind (.get (.ite (fun _ => ?_) fun _ => ?_))
  · exact .bind (MMUSys.onMMU_sat (.modify (.pure ExecFeedbackCode.noConfusion)))
  · refine .bind (MMUSys.onMMU_sat (.modify ?_))
    refine .bind (busCall_sat (fun fb b hr => .pure ?_) fun _ _ _ => trivial)
    rw [if_pos ((MEmuMMIOBus.paddrWriteBuffer_found hown.found size data).ok hr)]
    exact ExecFeedbackCode.noConfusion

theorem conditional_tail_access (addr : Word) (data : List Byte) :
    Sat s₁ (MMUSys.conditionalWrite env addr paddr size data .storePgfault)
      (fun _ => AccessesAt paddr size (MMUSys.reservationLost env addr size s₁.mmu = false) s₁)
      (fun _ => AccessesAt paddr size (MMUSys.reservationLost env addr size s₁.mmu = false) s₁) := by
  refine .bind (.get (.ite (fun hlost => ?_) fun _ => ?_))
  · refine .bind (MMUSys.onMMU_sat (.modify (.pure ⟨[], ?_, nofun, fun hkept => ?_⟩)))
    · exact (List.append_nil _).symm
    · rw [hlost] at hkept
      cases hkept
  · refine .bind (MMUSys.onMMU_sat (.modify ?_))
    refine .bind (busCall_sat (fun fb b _ => .pure ?_) fun e b _ => ?_)
    · exact ⟨_, rfl, by simp, fun _ => List.cons_ne_nil _ _⟩
    · exact ⟨_, rfl, by simp, fun _ => List.cons_ne_nil _ _⟩

end Tails

/-! ## The rule of all three -/

section Rule

variable {δ : Type} [MMIODevI δ] {env : MMUEnv} {w : Stores}

theorem run_store (hb : env.bareData = false) (hpage : InPage w.addr w.size)
    (s : MMUSys (MEmuMMIOBus δ)) :
    (w.store env).run s = afterEntry env w.addr .pageFault (fun paddr => do
        let fb ← busWrite .store paddr w.size w.data
        pure (if fb = .ok then VAddrRWFeedback.accessOk else .pageFault))
      ((MMUSys.getTLBEntry env w.addr).run s) := by
  rw [Stores.store, MMUSys.vaddrWriteBuffer, if_neg (Bool.eq_false_iff.mp hb)]
  exact run_storePath VAddrRWFeedback.pageFault rfl s hpage

theorem run_atomic (hb : env.bareData = false) (hpage : InPage w.addr w.size)
    (s : MMUSys (MEmuMMIOBus δ)) :
    (w.atomic env).run s = afterEntry env w.addr (.storePgfault, 0) (fun paddr => do
        let (amo_fb, dst) ← MMUSys.paAmoOp env paddr w.size w.op w.src
        pure (if amo_fb then ExecFeedbackCode.ok else .storeAccFault, dst))
      ((MMUSys.getTLBEntry env w.addr).run s) := by
  rw [Stores.atomic, MMUSys.vaddrAtomicMemOperation, if_neg (Bool.eq_false_iff.mp hb)]
  exact run_storePath (ExecFeedbackCode.storePgfault, (0 : Word)) rfl s hpage

theorem run_conditional (hb : env.bareData = false) (hpage : InPage w.addr w.size)
    (s : MMUSys (MEmuMMIOBus δ)) :
    (w.conditional env).run s = afterEntry env w.addr (.storePgfault, false)
      (fun paddr => MMUSys.conditionalWrite env w.addr paddr w.size w.data .storePgfault)
      ((MMUSys.getTLBEntry env w.addr).run s) := by
  rw [Stores.conditional, MMUSys.vaddrStoreConditional, if_neg (Bool.eq_false_iff.mp hb)]
  exact run_storePath (ExecFeedbackCode.storePgfault, false) rfl s hpage

/-- Where translation applies, an aligned store, atomic operation and store-conditional fault on
the same entries and access the same address. -/
theorem store_paths_agree (htrans : StoresTranslated env) (hsize : w.size = 4 ∨ w.size = 8)
    (halign : w.addr % w.size = 0) (s : MMUSys (MEmuMMIOBus δ))
    (hown : ∀ i s₁, (MMUSys.getTLBEntry env w.addr).run s = .ok (some i) s₁ →
      s₁.sysBus.Owned (w.place (s₁.mmu.tlb i))) : w.Agree env s := by
  have hpage : InPage w.addr w.size := .of_aligned (by rcases hsize with h | h <;> simp [h]) halign
  have hstore := run_store (δ := δ) htrans.paged hpage s
  have hatomic := run_atomic (δ := δ) htrans.paged hpage s
  have hcond := run_conditional (δ := δ) htrans.paged hpage s
  unfold Stores.Agree
  cases hentry : (MMUSys.getTLBEntry env w.addr).run s with
  | error e s₁ =>
      rw [hentry] at hstore hatomic hcond
      exact ⟨hstore, hatomic, hcond⟩
  | ok r s₁ =>
      rw [hentry] at hstore hatomic hcond
      cases r with
      | none =>
          exact ⟨iff_of_true ⟨_, _, hstore, rfl⟩ trivial, iff_of_true ⟨_, _, hatomic, rfl⟩ trivial,
            iff_of_true ⟨_, _, hcond, rfl⟩ trivial⟩
      | some i =>
          have hplace := hown i s₁ hentry
          refine ⟨⟨?_, ?_, ?_⟩, fun hallowed => ⟨?_, ?_, ?_⟩⟩
          · rw [hstore]
            exact pageFaults_afterEntry rfl fun _ => store_tail_clear hplace _
          · rw [hatomic]
            exact pageFaults_afterEntry rfl fun _ => atomic_tail_clear _ _
          · rw [hcond]
            exact pageFaults_afterEntry rfl fun _ => conditional_tail_clear hplace _ _
          · rw [hstore, afterEntry, if_pos hallowed]
            exact (store_tail_access _).final
          · rw [hatomic, afterEntry, if_pos hallowed]
            exact (atomic_tail_access _ _).final
          · rw [hcond, afterEntry, if_pos hallowed]
            exact (conditional_tail_access _ _).final

end Rule

/-- Doublewords at address 0 of a page that is mapped writable for the supervisor. -/
theorem store_paths_agree_writable :
    Stores.Agree ⟨0, 8, [1, 2, 3, 4, 5, 6, 7, 8], .swap, 1⟩ readsExecutable (firstGiB 0xc7) := by
  refine store_paths_agree ⟨.inl (by decide), by decide⟩ (.inr rfl) (by decide) _ fun i s₁ h => ?_
  have hentry : (MMUSys.getTLBEntry readsExecutable 0).run (firstGiB 0xc7)
      = .ok (some 0) (Run.final ((MMUSys.getTLBEntry readsExecutable 0).run (firstGiB 0xc7))) := by
    rfl
  cases hentry.symm.trans h
  exact ⟨0, by decide, by decide⟩

end Paths

end MEmu
