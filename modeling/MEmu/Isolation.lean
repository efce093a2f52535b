import MEmu.BusEvents
import MEmu.TlbRefinement

/-!
# User code is isolated

Code in U-mode under Sv39, on RAM, until it traps.  It may write the bytes of the pages that the
page tables give it to write (`UserBytes`), and what a walk finds is decided by the bytes of
the entries that walks read (`TableBytes`).  Where no byte is both, such code keeps every byte
that is not its own to write and every register that is not its own to set, and leaves U-mode
only for a trap vector (`user_integrity`).  Nor does it depend on the bytes that it
may not see: two machines that agree on the others run it alike (`user_secrecy`).
-/

namespace MEmu

open Machine (onCore)
open Run (Sat Lock)
open RV64SV39MMU
open RAMBus (SameMap AgreeOn Reaches SameView)

/-! ## The bytes that decide the walks -/

section Walk

variable {read read' : Word → EStateM Abort Unit Word} {root v : Word}

/-- The addresses of the entries that the walk for `v` reads. -/
inductive WalkReads (read : Word → EStateM Abort Unit Word) (root v : Word) : Word → Prop where
  | l2 : WalkReads read root v (root + (VAddr.vpn2 v).setWidth 64 * 8)
  | l1 {l2_pte : Word}
      (hread₂ : (read (root + (VAddr.vpn2 v).setWidth 64 * 8)).run () = .ok l2_pte ())
      (hdir₂ : isValidDirPTE l2_pte = true) :
      WalkReads read root v (PTE.ppa l2_pte + (VAddr.vpn1 v).setWidth 64 * 8)
  | l0 {l2_pte l1_pte : Word}
      (hread₂ : (read (root + (VAddr.vpn2 v).setWidth 64 * 8)).run () = .ok l2_pte ())
      (hdir₂ : isValidDirPTE l2_pte = true)
      (hread₁ : (read (PTE.ppa l2_pte + (VAddr.vpn1 v).setWidth 64 * 8)).run () = .ok l1_pte ())
      (hdir₁ : isValidDirPTE l1_pte = true) :
      WalkReads read root v (PTE.ppa l1_pte + (VAddr.vpn0 v).setWidth 64 * 8)

/-- A walk depends on nothing but the entries that it reads. -/
theorem WalkReads.walk_congr (h : ∀ addr, WalkReads read root v addr → read' addr = read addr) :
    (Sv39.walk read' root v).run () = (Sv39.walk read root v).run () := by
  rw [Sv39.walk, Sv39.walk, EStateM.run_bind, EStateM.run_bind, h _ .l2]
  cases hread₂ : (read (root + (VAddr.vpn2 v).setWidth 64 * 8)).run () with
  | error e t => rfl
  | ok l2_pte t =>
      dsimp only
      split
      · rfl
      split
      · rfl
      rename_i hdir₂
      rw [Bool.not_eq_true, Bool.not_eq_false'] at hdir₂
      rw [EStateM.run_bind, EStateM.run_bind, h _ (.l1 hread₂ hdir₂)]
      cases hread₁ : (read (PTE.ppa l2_pte + (VAddr.vpn1 v).setWidth 64 * 8)).run () with
      | error e t => rfl
      | ok l1_pte t =>
          dsimp only
          split
          · rfl
          split
          · rfl
          rename_i hdir₁
          rw [Bool.not_eq_true, Bool.not_eq_false'] at hdir₁
          rw [EStateM.run_bind, EStateM.run_bind, h _ (.l0 hread₂ hdir₂ hread₁ hdir₁)]

end Walk

/-- The entry of a table that is visible is the same on both. -/
theorem RAMBus.AgreeOn.peek {V : DevHandle → Nat → Prop} {b b' : RAMBus} (h : AgreeOn V b b')
    {addr : Word} (hV : ∀ k i, b.Reaches addr 8 k i → V k i) : b'.peek addr = b.peek addr := by
  rw [RAMBus.peek, RAMBus.peek, h.route]
  cases hroute : (b.findDevAccordingToAddr addr).1 with
  | none => rfl
  | some k =>
      have hiff := h.toSameMap.inBuffer k (addr - (b.obj k).devBaseAddr) 8
      have hbytes : (b'.obj k).dev.bytesAt (addr - (b.obj k).devBaseAddr) 8
          = (b.obj k).dev.bytesAt (addr - (b.obj k).devBaseAddr) 8 := by
        refine List.map_congr_left fun i hi => ?_
        have hi : i < (8 : Word).toNat := List.mem_range.mp hi
        exact h.memData k _ (hV k _ ⟨hroute, by omega, by omega⟩)
      simp only [h.devBaseAddr, hiff, hbytes]

/-- Byte `i` of the device `h` is in an entry that some walk reads. -/
def TableBytes (satp : Word) (b : RAMBus) (h : DevHandle) (i : Nat) : Prop :=
  ∃ v addr, WalkReads b.peek (Satp.ppn satp <<< 12) v addr ∧ b.Reaches addr 8 h i

/-- The bytes of the entries decide the walks. -/
theorem walked_of_tableBytes {satp : Word} {b b' : RAMBus} (h : AgreeOn (TableBytes satp b) b b')
    (v : Word) : walked satp b' v = walked satp b v := by
  rw [walked_eq, walked_eq, WalkReads.walk_congr fun addr haddr => ?_]
  exact h.peek fun k i hr => ⟨v, addr, haddr, hr⟩

/-! ## The bytes of user code -/

/-- The bytes from `addr` on lie in one page frame. -/
def InFrame (addr size : Word) : Prop := addr.toNat % 4096 + size.toNat ≤ 4096

/-- `addr` is what some address translates to for a U-mode access of this kind. -/
def UserAddr (satp : Word) (b : RAMBus) (kind : AccessKind) (addr : Word) : Prop :=
  ∃ env : MMUEnv, env.satp = satp ∧ UserPath env b kind addr

/-- Byte `i` of the device `h` is in a page of U-mode that permits accesses of this kind. -/
def UserBytes (satp : Word) (b : RAMBus) (kind : AccessKind) (h : DevHandle) (i : Nat) : Prop :=
  ∃ addr size, UserAddr satp b kind addr ∧ InFrame addr size ∧ b.Reaches addr size h i

/-- What the run of user code may depend on. -/
def Visible (satp : Word) (b : RAMBus) (h : DevHandle) (i : Nat) : Prop :=
  TableBytes satp b h i ∨ ∃ kind, UserBytes satp b kind h i

/-- User code cannot write its own page tables. -/
def Apart (satp : Word) (b : RAMBus) : Prop :=
  ∀ h i, UserBytes satp b .store h i → ¬TableBytes satp b h i

section Bytes

variable {satp v size : Word} {b : RAMBus} {env : MMUEnv} {e : SV39TLBEntry}

/-- What the user may write by any access is what a store may write. -/
theorem UserAddr.store {kind : AccessKind} {addr : Word} (h : UserAddr satp b kind addr)
    (hkind : kind.isWrite = true) : UserAddr satp b .store addr := by
  obtain ⟨env, henv, va, pte, ps, s, s', hreads, hwalk, haddr, hV, hU, hA, hperm⟩ := h
  refine ⟨env, henv, va, pte, ps, s, s', hreads, hwalk, haddr, hV, hU, hA, ?_⟩
  cases kind with
  | store | storeConditional | amoWrite => exact hperm
  | walk | fetch | load | loadReserved | amoRead => cases hkind

/-- An entry that a walk has given is backed by it. -/
theorem backed_of_truth (h : truth satp b v = some e) (henv : env.satp = satp) :
    Backed env b v e := by
  subst henv
  rw [truth_eq_some, walked_eq] at h
  cases hw : (Sv39.walk b.peek (Satp.ppn env.satp <<< 12) v).run () with
  | error a t =>
      rw [hw] at h
      cases h
  | ok leaf t =>
      rw [hw] at h
      cases leaf with
      | none => cases h
      | some leaf =>
          cases h
          have hsat := MMUSys.pageTableWalk_sat env v { mmu := default, sysBus := b, busLog := [] }
          cases hr : (MMUSys.pageTableWalk env v).run { mmu := default, sysBus := b, busLog := [] } with
          | error a s' => cases hw.symm.trans (hsat.error hr)
          | ok leaf' s' =>
              cases hw.symm.trans (hsat.ok hr).1
              exact ⟨leaf.1, leaf.2, _, s', .refl _, hr, rfl⟩

/-- The bytes of an access are in the frame of its page. -/
theorem inFrame_of_inPage {pte : Word} {ps : PageSize} (h : InPage v size) (hsize : size.toNat ≤ 8) :
    InFrame (PTE.ppa pte + v % ps.bytes) size := by
  have hv : v.toNat % 4096 + size.toNat ≤ 4096 := by
    have hnat := congrArg BitVec.toNat h
    rw [BitVec.toNat_ushiftRight, BitVec.toNat_ushiftRight, Nat.shiftRight_eq_div_pow,
      Nat.shiftRight_eq_div_pow] at hnat
    bv_omega
  have hppa : (PTE.ppa pte).toNat % 4096 = 0 := by
    rw [ppa_eq_next, RiscV.Sv39.next, BitVec.toNat_shiftLeft, Nat.shiftLeft_eq,
      Nat.mod_mod_of_dvd _ (by decide)]
    exact Nat.mul_mod_left _ _
  have hoff : (v % ps.bytes).toNat % 4096 = v.toNat % 4096 := by
    rw [BitVec.toNat_umod]
    cases ps with
    | invalid => exact congrArg (· % 4096) (Nat.mod_zero _)
    | size4K | size2M | size1G => exact Nat.mod_mod_of_dvd _ (by decide)
  rw [InFrame, BitVec.toNat_add, Nat.mod_mod_of_dvd _ (by decide), Nat.add_mod, hppa, hoff]
  omega

end Bytes

/-! ## Two machines that agree on what is visible -/

/-- Only bytes that user code may write have changed since `b₀`, and the buses agree on what
it may see. -/
structure UserBuses (satp : Word) (b₀ b b' : RAMBus) : Prop where
  kept : AgreeOn (fun h i => ¬UserBytes satp b₀ .store h i) b₀ b
  seen : AgreeOn (Visible satp b₀) b b'

/-- The memories of two machines that run one user code from `b₀`. -/
structure UserShared (satp : Word) (b₀ : RAMBus) (s s' : MMUSys RAMBus) : Prop where
  linked : Linked (UserBuses satp b₀) s s'
  left : TLBInv satp b₀ (fun _ => False) s.mmu
  right : TLBInv satp b₀ (fun _ => False) s'.mmu

section Shared

variable {satp addr size : Word} {b₀ b b' : RAMBus} {s s' : MMUSys RAMBus}

/-- The page tables stay as they are. -/
theorem UserBuses.walked (h : UserBuses satp b₀ b b') (hapart : Apart satp b₀) (v : Word) :
    walked satp b v = walked satp b₀ v ∧ walked satp b' v = walked satp b₀ v := by
  have htable : AgreeOn (TableBytes satp b₀) b₀ b :=
    h.kept.mono fun k i htable hstore => hapart k i hstore htable
  have htable' : AgreeOn (TableBytes satp b₀) b b' := h.seen.mono fun k i => .inl
  exact ⟨walked_of_tableBytes htable v, walked_of_tableBytes (htable.trans htable') v⟩

/-- A read of visible bytes gives the same on both. -/
theorem readsAlike_user (h : ∀ k i, b₀.Reaches addr size k i → Visible satp b₀ k i) :
    ReadsAlike (UserBuses satp b₀) addr size := by
  intro b b' buffer hb
  refine (hb.seen.read_lock (fun k i hr => h k i (hb.kept.toSameMap.symm.reaches hr)) buffer).mono ?_
  rintro r r' t t' ⟨hr, hseen, hview⟩
  exact ⟨hr, hb.kept.trans hview.agreeOn, hseen⟩

/-- A write of bytes of the user leaves the buses in agreement. -/
theorem writesAlike_user (h : ∀ k i, b₀.Reaches addr size k i → UserBytes satp b₀ .store k i) :
    WritesAlike (UserBuses satp b₀) addr size := by
  intro b b' buffer hb
  refine ((hb.seen.write_lock addr size buffer).with (RAMBus.write_keeps addr size buffer b)
    Sat.trivial).mono ?_
  rintro r r' t t' ⟨⟨hr, hseen⟩, hwrite, -⟩
  refine ⟨hr, hb.kept.trans (hwrite.mono fun k i hno hr => hno ?_), hseen⟩
  exact h k i (hb.kept.toSameMap.symm.reaches hr)

/-- Both machines translate as a walk over `b₀` does. -/
theorem UserShared.getTLBEntry_lock (h : UserShared satp b₀ s s') (hapart : Apart satp b₀)
    {env : MMUEnv} (henv : env.satp = satp) (hmode : Satp.mode satp = 8) (v : Word) :
    Lock s s' (MMUSys.getTLBEntry env v) (MMUSys.getTLBEntry env v) fun r r' t t' =>
      r.map t.mmu.tlb = r'.map t'.mmu.tlb ∧ UserShared satp b₀ t t' ∧
        ∀ e, r.map t.mmu.tlb = some e → truth satp b₀ v = some e := by
  have hwalked := h.linked.bus.walked hapart
  have hleft : TLBInv satp s.sysBus (fun _ => False) s.mmu :=
    h.left.change rfl fun v _ => ⟨id, (hwalked v).1⟩
  have hright : TLBInv satp s'.sysBus (fun _ => False) s'.mmu :=
    h.right.change rfl fun v _ => ⟨id, (hwalked v).2⟩
  refine (hleft.lock hright henv hmode id ((hwalked v).2.trans (hwalked v).1.symm)).mono ?_
  rintro r r' t t' ⟨heq, htruth, ht, ht'⟩
  refine ⟨heq, ⟨⟨⟨h.linked.bus.kept.trans ht.view.agreeOn, ?_⟩, ?_⟩, ?_, ?_⟩, fun e he => ?_⟩
  · exact (ht.view.symm.agreeOn.trans h.linked.bus.seen).trans ht'.view.agreeOn
  · rw [ht.reservation, ht'.reservation, h.linked.reservation]
  · exact ht.inv.change rfl fun v _ =>
      ⟨id, ((walked_congr ht.view).trans (hwalked v).1).symm⟩
  · exact ht'.inv.change rfl fun v _ =>
      ⟨id, ((walked_congr ht'.view).trans (hwalked v).2).symm⟩
  · rw [truth_eq_some, ← (hwalked v).1, htruth, he]

/-- The paged path in U-mode. -/
theorem UserShared.pagedAddr_lock {φ : Type} (h : UserShared satp b₀ s s') (hapart : Apart satp b₀)
    {env : MMUEnv} (henv : env.satp = satp) (hmode : Satp.mode satp = 8) {v : Word}
    (hsize : size.toNat ≤ 8) (misalign pgfault : φ) {check : SV39TLBEntry → Option φ}
    {kinds : List AccessKind} (hcheck : ∀ e, Backed env b₀ v e → check e = none →
      ∀ kind ∈ kinds, UserPath env b₀ kind (e.ppa + v % e.pagesize.bytes)) :
    Lock s s' (MMUSys.pagedAddr env v size misalign pgfault check)
      (MMUSys.pagedAddr env v size misalign pgfault check) fun r r' t t' => r = r' ∧
        UserShared satp b₀ t t' ∧ ∀ paddr, r = .ok paddr →
          (∀ kind ∈ kinds, UserAddr satp b₀ kind paddr) ∧ InFrame paddr size := by
  refine (MMUSys.pagedAddr_lock size misalign pgfault check h
    (h.getTLBEntry_lock hapart henv hmode v)).mono ?_
  rintro r r' t t' ⟨hr, ht, hP⟩
  refine ⟨hr, ht, fun paddr hpaddr => ?_⟩
  obtain ⟨hin, e, htruth, he⟩ := hP paddr hpaddr
  have hbacked := backed_of_truth htruth henv
  rw [MMUSys.entryAddr] at he
  split at he
  · cases he
  cases he
  refine ⟨fun kind hkind => ⟨env, henv, hcheck e hbacked ‹_› kind hkind⟩, ?_⟩
  obtain ⟨pte, ps, -, -, -, -, hagrees⟩ := hbacked
  have hppa : e.ppa = PTE.ppa pte := congrArg SV39TLBEntry.ppa hagrees
  have hps : e.pagesize = ps := congrArg SV39TLBEntry.pagesize hagrees
  rw [hppa, hps]
  exact inFrame_of_inPage hin hsize

/-- An access where each of its kinds is permitted. -/
theorem UserShared.access_lock (h : UserShared satp b₀ s s') (env : MMUEnv) (bare : Bool)
    {paddr : Word} {op : MemOp} (hkinds : ∀ kind ∈ op.kinds, UserAddr satp b₀ kind paddr)
    (hframe : InFrame paddr op.size) :
    Lock s s' (op.access env bare paddr) (op.access env bare paddr)
      fun r r' t t' => r = r' ∧ UserShared satp b₀ t t' := by
  have hread : op.readsBus → ReadsAlike (UserBuses satp b₀) paddr op.size := by
    rintro ⟨kind, hkind, -⟩
    exact readsAlike_user fun k i hr => .inr ⟨kind, paddr, op.size, hkinds kind hkind, hframe, hr⟩
  have hwrite : op.writesBus → WritesAlike (UserBuses satp b₀) paddr op.size := by
    rintro ⟨kind, hkind, hw⟩
    exact writesAlike_user fun k i hr =>
      ⟨paddr, op.size, (hkinds kind hkind).store hw, hframe, hr⟩
  refine ((op.access_lock env bare paddr hread hwrite h.linked).with
    (op.access_translation env bare paddr s) (op.access_translation env bare paddr s')).mono ?_
  rintro r r' t t' ⟨⟨hr, hlinked⟩, ht, ht'⟩
  exact ⟨hr, hlinked, h.left.change ht fun _ _ => ⟨id, rfl⟩, h.right.change ht' fun _ _ => ⟨id, rfl⟩⟩

/-- One piece of a fetch in U-mode. -/
theorem UserShared.fetch_lock (h : UserShared satp b₀ s s') (hapart : Apart satp b₀)
    {env : MMUEnv} (henv : env.satp = satp) (hmode : Satp.mode satp = 8)
    (hpriv : env.currentPrivMode = .uMode) {v : Word} (hsize : size.toNat ≤ 8)
    (buffer : List Byte) :
    Lock s s' (MMUSys.instFetchWhole env v size buffer) (MMUSys.instFetchWhole env v size buffer)
      fun r r' t t' => r = r' ∧ UserShared satp b₀ t t' := by
  have hbare := (bare_uMode hpriv (henv ▸ hmode)).2
  refine MMUSys.instFetchWhole_lock env v size buffer
    (P := fun paddr => (∀ kind ∈ [AccessKind.fetch], UserAddr satp b₀ kind paddr) ∧
      InFrame paddr size) h (fun hb => ?_) (fun _ => ?_) fun paddr t t' hP ht => ?_
  · rw [hbare] at hb
    cases hb
  · refine h.pagedAddr_lock hapart henv hmode hsize _ _ fun e he hc kind hkind => ?_
    obtain rfl := List.mem_singleton.mp hkind
    exact he.fetch hpriv hc
  · have hread : ReadsAlike (UserBuses satp b₀) paddr size := readsAlike_user fun k i hr =>
      .inr ⟨_, paddr, size, hP.1 _ (List.mem_singleton.mpr rfl), hP.2, hr⟩
    refine (busRead_lock hread _ _ ht.linked.bus).mono ?_
    rintro r r' u u' ⟨hr, hbus, hmmu, hmmu'⟩
    refine ⟨hr, ⟨hbus, ?_⟩, hmmu ▸ ht.left, hmmu' ▸ ht.right⟩
    rw [hmmu, hmmu', ht.linked.reservation]

end Shared

/-! ## One step -/

/-- The pieces of a fetch are words at most. -/
theorem fetchPieces_size {v : Word} {piece : Word × Word} (h : piece ∈ MMUSys.fetchPieces v 4) :
    piece.2.toNat ≤ 8 := by
  rw [MMUSys.fetchPieces] at h
  split at h
  · simp only [List.mem_cons, List.not_mem_nil, or_false] at h
    rcases h with rfl | rfl <;> exact of_decide_eq_true rfl
  · obtain rfl := List.mem_singleton.mp h
    exact of_decide_eq_true rfl

section Step

variable {satp : Word} {b₀ : RAMBus} {m m' : Machine RAMBus}

/-- A step in U-mode. -/
theorem stepCoreAPI_user (hmode : Satp.mode satp = 8) (hapart : Apart satp b₀)
    (hcore : m.core = m'.core) (hsatp : m.core.satp = satp) (hpriv : m.mode = .uMode)
    (h : UserShared satp b₀ m.mem m'.mem) :
    Lock m m' stepCoreAPI stepCoreAPI (InStep (UserShared satp b₀)) := by
  have henv : m.begun.mmuEnv.satp = satp := hsatp
  have hpriv : m.begun.mmuEnv.currentPrivMode = .uMode := hpriv
  have hstart : UserShared satp b₀ m.clearLogs.mem m'.clearLogs.mem :=
    ⟨⟨h.linked.bus, h.linked.reservation⟩, h.left, h.right⟩
  refine stepCoreAPI_lock hcore hstart (fun _ => ?_) (fun _ _ _ => id) (fun op rd hop s s' hs => ?_)
    fun a asid _ s s' hs => ?_
  · refine MMUSys.vaddrInstFetch_lock _ _ _ _ hstart fun piece hpiece buffer t t' ht => ?_
    exact ht.fetch_lock hapart henv hmode hpriv (fetchPieces_size hpiece) buffer
  · have hsize := (Machine.memOp_size hop).2
    refine op.perform_lock m.begun.mmuEnv (R := UserShared satp b₀)
      (P := fun paddr => (∀ kind ∈ op.kinds, UserAddr satp b₀ kind paddr) ∧ InFrame paddr op.size)
      hs (fun hb => ?_) (fun _ _ => ?_) (fun _ _ => id) fun paddr t t' hP ht => ?_
    · rw [(bare_uMode hpriv (henv ▸ hmode)).1] at hb
      cases hb
    · exact hs.pagedAddr_lock hapart henv hmode hsize _ _ fun e he hc kind hkind =>
        he.op hpriv hc hkind
    · exact ht.access_lock _ _ hP.1 hP.2
  · refine ⟨⟨hs.linked.bus, hs.linked.reservation⟩, ?_, ?_⟩
    · exact (hs.left.sfence a asid).change rfl fun _ _ => ⟨And.left, rfl⟩
    · exact (hs.right.sfence a asid).change rfl fun _ _ => ⟨And.left, rfl⟩

end Step

/-! ## The registers -/

namespace RV64Core

/-- The control registers that no trap writes. -/
def controlRegs (c : RV64Core) : List Word :=
  [c.csrMIntDelegation, c.csrMExceptionDelegation, c.csrMTrapVecBaseAddr, c.csrMCounterEN,
    c.csrMachineISA, c.csrMscratch, c.csrSTrapVecBaseAddr, c.csrSCounterEN, c.csrSscratch,
    c.rvHartID, c.satp, c.csrIntEnable]

/-- Those that a trap writes. -/
def trapWrites (c : RV64Core) : List Word :=
  [c.status, c.csrMachineTrapVal, c.csrMachineCause, c.csrMExceptionPC,
    c.csrSupervisorTrapVal, c.csrSupervisorCause, c.csrSExceptionPC]

/-- In `c'` a trap has been entered, through a vector of `c`. -/
def AtVector (c c' : RV64Core) : Prop :=
  ∃ cause, (c'.nextPrivMode = .sMode ∧
      c'.currentProgramCounter = vectorPC c.csrSTrapVecBaseAddr cause) ∨
    (c'.nextPrivMode = .mMode ∧
      c'.currentProgramCounter = vectorPC c.csrMTrapVecBaseAddr cause)

/-- What user code does to the registers of the higher modes: nothing, or a trap. -/
structure UserKept (c c' : RV64Core) : Prop where
  control : c'.controlRegs = c.controlRegs
  trap : (c'.nextPrivMode = c.nextPrivMode ∧ c'.trapWrites = c.trapWrites) ∨ AtVector c c'

/-- What one step in U-mode keeps, and the next, is kept by both. -/
theorem UserKept.trans {c c' c'' : RV64Core} (h : UserKept c c') (hpriv : c'.nextPrivMode = .uMode)
    (h' : UserKept c' c'') : UserKept c c'' := by
  have hvectors := h.control
  simp only [controlRegs, List.cons.injEq, and_true] at hvectors
  obtain ⟨-, -, hmtvec, -, -, -, hstvec, -⟩ := hvectors
  refine ⟨h'.control.trans h.control, ?_⟩
  rcases h.trap with ⟨hnext, htrap⟩ | ⟨cause, ⟨hmode, -⟩ | ⟨hmode, -⟩⟩
  · rcases h'.trap with ⟨hnext', htrap'⟩ | ⟨cause, hcause⟩
    · exact .inl ⟨hnext'.trans hnext, htrap'.trans htrap⟩
    · rw [hmtvec, hstvec] at hcause
      exact .inr ⟨cause, hcause⟩
  · cases hpriv.symm.trans hmode
  · cases hpriv.symm.trans hmode

/-- No CSR is U-mode's to write. -/
theorem csrWriteCase_uMode {c c' : RV64Core} {a : CSRAddr} {v : Word}
    (hpriv : c.currentPrivMode = .uMode) (hperm : c.csrOpPermissionCheck a.val true = true) :
    c.csrWriteCase v a ≠ some c' := by
  have hlow : BitField.get 8 2 a.val = 0 := by
    unfold csrOpPermissionCheck at hperm
    split at hperm
    · cases hperm
    · rename_i hlt
      rw [hpriv] at hlt
      exact BitVec.le_zero_iff.mp (BitVec.not_lt.mp hlt)
  cases a <;> first | exact absurd hlow (by decide) | nofun

end RV64Core

section Registers

variable {β : Type} [MMIOBus β] {m m' : Machine β} {fb : FuncReturnFeedback}

/-- An instruction that retires in U-mode keeps what belongs to the other modes. -/
theorem Retires.userKept {inst : BitVec 32} {flags : ExecFlags} (h : Retires inst m flags m')
    (hpriv : m.core.currentPrivMode = .uMode) (comp : Bool) :
    RV64Core.UserKept m.core (m'.core.retire comp flags) := by
  cases h with
  | set rd value =>
      rw [RV64Core.setGPR_eq]
      exact ⟨rfl, .inl ⟨rfl, rfl⟩⟩
  | jump rd link npc =>
      rw [RV64Core.setGPR_eq]
      exact ⟨rfl, .inl ⟨rfl, rfl⟩⟩
  | mem op rd value s hr =>
      rw [RV64Core.setGPR_eq]
      exact ⟨rfl, .inl ⟨rfl, rfl⟩⟩
  | csr a rd value old c hperm hwrite hc =>
      exact absurd hc (RV64Core.csrWriteCase_uMode hpriv hperm)
  | mret hmode => cases hpriv.symm.trans hmode
  | sret hperm =>
      rw [RV64Core.sretPermitted, hpriv] at hperm
      cases hperm
  | sfence vaddr asid hperm =>
      rw [RV64Core.sfencePermitted, hpriv] at hperm
      cases hperm

/-- A step in U-mode keeps the control registers, and traps if it writes others. -/
theorem stepCoreAPI_userKept (h : stepCoreAPI.run m = .ok fb m') (hpriv : m.mode = .uMode) :
    RV64Core.UserKept m.core m'.core := by
  rcases (h ▸ stepCoreAPI_effect m : StepEffect m (.ok fb m')).cases_ok with
    ⟨cause, tval, comp, flags, s, s', -, -, rfl⟩ | ⟨inst, flags, s, m₁, -, -, hr, rfl⟩
  · rcases m.begun.trapped_cases cause tval with ⟨-, ht⟩ | ⟨-, ht⟩
    · dsimp only
      rw [ht]
      exact ⟨rfl, .inr ⟨cause, .inl ⟨rfl, rfl⟩⟩⟩
    · dsimp only
      rw [ht]
      exact ⟨rfl, .inr ⟨cause, .inr ⟨rfl, rfl⟩⟩⟩
  · obtain ⟨hcontrol, htrap⟩ := hr.userKept hpriv (isCompressedInst inst)
    exact ⟨hcontrol, htrap⟩

end Registers

/-! ## Runs -/

/-- A step of user code, after the interrupt lines have changed.  In a higher mode there is
none. -/
def userStep {β : Type} [MMIOBus β] (lines : IntStatus) : Exec β Unit := do
  let m ← get
  if m.mode = .uMode then
    onCore (modify fun c => { c with intStatus := lines })
    let _ ← stepCoreAPI
  else pure ()

/-- User code, until it traps. -/
def userRun {β : Type} [MMIOBus β] (is : List IntStatus) : Exec β Unit := forM is userStep

section Runs

variable {satp : Word} {b₀ : RAMBus} {c₀ : RV64Core} {m m' : Machine RAMBus}

/-- Two machines in a run of user code that began with the core `c₀` on `b₀`. -/
structure InUserRun (c₀ : RV64Core) (b₀ : RAMBus) (m m' : Machine RAMBus) : Prop where
  core : m.core = m'.core
  mem : UserShared c₀.satp b₀ m.mem m'.mem
  kept : c₀.UserKept m.core

/-- A step of the user goes alike on both machines. -/
theorem userStep_lock (hmode : Satp.mode c₀.satp = 8) (hapart : Apart c₀.satp b₀)
    (lines : IntStatus) (h : InUserRun c₀ b₀ m m') :
    Lock m m' (userStep lines) (userStep lines) fun _ _ => InUserRun c₀ b₀ := by
  obtain ⟨c, s⟩ := m
  obtain ⟨c', s'⟩ := m'
  obtain ⟨hcore, hmem, hkept⟩ := h
  obtain rfl : c = c' := hcore
  have hcontrol := hkept.control
  simp only [RV64Core.controlRegs, List.cons.injEq, and_true] at hcontrol
  obtain ⟨-, -, -, -, -, -, -, -, -, -, hsatp, -⟩ := hcontrol
  refine .bind (.get (.ite (c := c.nextPrivMode = .uMode) (fun hpriv => ?_)
    fun _ => .pure ⟨rfl, hmem, hkept⟩))
  refine .bind (onCore_lock rfl (.modify (.bind ?_)))
  have hkept' : c₀.UserKept { c with intStatus := lines } := ⟨hkept.control, hkept.trap⟩
  have hpriv : Machine.mode (⟨{ c with intStatus := lines }, s⟩ : Machine RAMBus) = .uMode := hpriv
  have hran : Sat (⟨{ c with intStatus := lines }, s⟩ : Machine RAMBus) stepCoreAPI
      (fun _ n => RV64Core.UserKept { c with intStatus := lines } n.core) fun _ _ => True :=
    .intro (fun fb n hr => stepCoreAPI_userKept hr hpriv) fun _ _ _ => trivial
  have hlock : Lock (⟨{ c with intStatus := lines }, s⟩ : Machine RAMBus)
      (⟨{ c with intStatus := lines }, s'⟩ : Machine RAMBus) stepCoreAPI stepCoreAPI
      (InStep (UserShared c₀.satp b₀)) := stepCoreAPI_user hmode hapart rfl hsatp hpriv hmem
  refine (hlock.with hran Sat.trivial).mono ?_
  rintro fb _ n n' ⟨⟨-, hcore, hmem'⟩, hstep, -⟩
  exact .pure ⟨hcore, hmem', hkept'.trans hpriv hstep⟩

/-- Two machines in a run of user code from one core and one MMU that is coherent with the page
tables. -/
theorem userRun_lock (hmode : Satp.mode m.core.satp = 8) (hapart : Apart m.core.satp m.mem.sysBus)
    (hcore : m.core = m'.core)
    (hseen : AgreeOn (Visible m.core.satp m.mem.sysBus) m.mem.sysBus m'.mem.sysBus)
    (hres : m.mem.mmu.reservation = m'.mem.mmu.reservation)
    (htlb : TLBInv m.core.satp m.mem.sysBus (fun _ => False) m.mem.mmu)
    (htlb' : TLBInv m.core.satp m'.mem.sysBus (fun _ => False) m'.mem.mmu)
    (is : List IntStatus) :
    Lock m m' (userRun is) (userRun is) fun _ _ => InUserRun m.core m.mem.sysBus := by
  have hbus : UserBuses m.core.satp m.mem.sysBus m.mem.sysBus m'.mem.sysBus := ⟨.refl _, hseen⟩
  refine .forM is (fun lines n n' hn => userStep_lock hmode hapart lines hn) ⟨hcore, ?_, rfl, ?_⟩
  · refine ⟨⟨hbus, hres⟩, htlb, htlb'.change rfl fun v _ => ⟨id, ?_⟩⟩
    exact (hbus.walked hapart v).2.symm
  · exact .inl ⟨rfl, rfl⟩

/-- What user code does until it traps depends on nothing but its core, its page tables and
its pages. -/
theorem user_secrecy (hmode : Satp.mode m.core.satp = 8)
    (hapart : Apart m.core.satp m.mem.sysBus) (hcore : m.core = m'.core)
    (hseen : AgreeOn (Visible m.core.satp m.mem.sysBus) m.mem.sysBus m'.mem.sysBus)
    (hres : m.mem.mmu.reservation = m'.mem.mmu.reservation)
    (htlb : TLBInv m.core.satp m.mem.sysBus (fun _ => False) m.mem.mmu)
    (htlb' : TLBInv m.core.satp m'.mem.sysBus (fun _ => False) m'.mem.mmu)
    (is : List IntStatus) :
    Lock m m' (userRun is) (userRun is) fun _ _ n n' => n.core = n'.core ∧
      AgreeOn (Visible m.core.satp m.mem.sysBus) n.mem.sysBus n'.mem.sysBus ∧
      n.mem.mmu.reservation = n'.mem.mmu.reservation :=
  (userRun_lock hmode hapart hcore hseen hres htlb htlb' is).mono fun _ _ _ _ hn =>
    ⟨hn.core, hn.mem.linked.bus.seen, hn.mem.linked.reservation⟩

/-- What a run of user code leaves as it is: memory that it may not write, the page tables, and
the registers of the higher modes unless it has trapped to one of their vectors. -/
structure Isolated (m n : Machine RAMBus) : Prop where
  memory : AgreeOn (fun h i => ¬UserBytes m.core.satp m.mem.sysBus .store h i) m.mem.sysBus
    n.mem.sysBus
  walks : ∀ v, walked m.core.satp n.mem.sysBus v = walked m.core.satp m.mem.sysBus v
  tlb : TLBInv m.core.satp n.mem.sysBus (fun _ => False) n.mem.mmu
  regs : m.core.UserKept n.core

/-- User code that cannot write its page tables leaves everything but its pages and its own
registers as it is, until it traps. -/
theorem user_integrity (hmode : Satp.mode m.core.satp = 8)
    (hapart : Apart m.core.satp m.mem.sysBus)
    (htlb : TLBInv m.core.satp m.mem.sysBus (fun _ => False) m.mem.mmu) {is : List IntStatus}
    {n : Machine RAMBus} (h : (userRun is).run m = .ok () n) : Isolated m n := by
  obtain ⟨_, n', -, hn⟩ := (userRun_lock hmode hapart rfl (.refl _) rfl htlb htlb is).ok h
  have hwalked := hn.mem.linked.bus.walked hapart
  refine ⟨hn.mem.linked.bus.kept, fun v => (hwalked v).1, ?_, hn.kept⟩
  exact hn.mem.left.change rfl fun v _ => ⟨id, (hwalked v).1⟩

end Runs

/-! ## An example -/

/-- Two GiB of RAM.  The root table is at 0, and its first entry gives U-mode the upper GiB, which
begins with `sd x0, 16(x0)`. -/
def userMemory : MMIOMem where
  memorySize := 0x80000000
  memData := fun i =>
    if i < 8 then ([0xdf, 0, 0, 0x10] : List Byte).getD i 0
    else if 0x40000000 ≤ i then ([0x23, 0x38, 0, 0] : List Byte).getD (i - 0x40000000) 0
    else 0

def userRAM : RAMBus :=
  { MEmuMMIOBus.empty fun _ =>
      { devBaseAddr := 0, addrRegionSize := 0x80000000, dev := userMemory } with
    mmioDevs := [0] }

def userSatp : Word := 8 <<< 60

def userMachine : Machine RAMBus where
  core := { (default : RV64Core) with satp := userSatp }
  mem := ⟨construct default, userRAM, []⟩

/-- The same with another byte below the upper GiB. -/
def userMachine' : Machine RAMBus :=
  { userMachine with mem := ⟨construct default, RAMBus.stored userRAM 0 4096 1 [7], []⟩ }

/-- The first entry of the root table, and the others. -/
def userEntry (k : BitVec 9) : Word := if k = 0 then 0x100000df else 0

/-- The root table is the first page of RAM. -/
theorem userRAM_peek (k : BitVec 9) :
    (userRAM.peek (Satp.ppn userSatp <<< 12 + k.setWidth 64 * 8)).run () = .ok (userEntry k) () := by
  have hroute : ∀ k : BitVec 9, (userRAM.findDevAccordingToAddr
      (Satp.ppn userSatp <<< 12 + k.setWidth 64 * 8)).1 = some 0 := by decide +kernel
  have hin : ∀ k : BitVec 9, userMemory.inBuffer
      (Satp.ppn userSatp <<< 12 + k.setWidth 64 * 8 - 0) 8 := by decide +kernel
  have hword : ∀ k : BitVec 9, Bytes.toWord (userMemory.bytesAt
      (Satp.ppn userSatp <<< 12 + k.setWidth 64 * 8 - 0) 8) = userEntry k := by decide +kernel
  rw [RAMBus.peek, hroute k]
  show (if userMemory.inBuffer (Satp.ppn userSatp <<< 12 + k.setWidth 64 * 8 - 0) 8 then
    (pure (Bytes.toWord (userMemory.bytesAt (Satp.ppn userSatp <<< 12 + k.setWidth 64 * 8 - 0) 8)) :
      EStateM Abort Unit Word) else throw .outOfBuffer).run () = _
  rw [if_pos (hin k), hword k]
  rfl

/-- No entry is a pointer. -/
theorem userEntry_dir (k : BitVec 9) : isValidDirPTE (userEntry k) = false := by
  revert k
  decide

/-- A walk reads the first page only. -/
theorem userRAM_walkReads {v addr : Word}
    (h : WalkReads userRAM.peek (Satp.ppn userSatp <<< 12) v addr) : addr.toNat ≤ 4088 := by
  have hle : ∀ k : BitVec 9, (Satp.ppn userSatp <<< 12 + k.setWidth 64 * 8).toNat ≤ 4088 := by
    decide +kernel
  cases h with
  | l2 => exact hle _
  | l1 hread₂ hdir₂ =>
      cases (userRAM_peek _).symm.trans hread₂
      cases (userEntry_dir _).symm.trans hdir₂
  | l0 hread₂ hdir₂ =>
      cases (userRAM_peek _).symm.trans hread₂
      cases (userEntry_dir _).symm.trans hdir₂

/-- The user reaches addresses from `0x40000000` on only. -/
theorem userRAM_userAddr {kind : AccessKind} {addr : Word} (h : UserAddr userSatp userRAM kind addr) :
    0x40000000 ≤ addr.toNat := by
  obtain ⟨env, henv, va, pte, ps, s, s', hreads, hwalk, rfl, -⟩ := h
  have hrun := ((MMUSys.pageTableWalk_sat env va s).ok hwalk).1
  rw [henv, (RAMBus.sameView_of_reads hreads).peek] at hrun
  obtain ⟨hleaf, ⟨rfl, hread⟩ | ⟨l2_pte, s₂, hread, -, hdir, -⟩⟩ := Sv39.walk_leaf hrun
  · cases (userRAM_peek _).symm.trans hread
    have hk : VAddr.vpn2 va = 0 := by
      by_contra hne
      rw [userEntry, if_neg hne] at hleaf
      cases hleaf
    have hoff : (va % PageSize.size1G.bytes).toNat < 0x40000000 := by
      rw [BitVec.toNat_umod]
      exact Nat.mod_lt _ (by decide)
    rw [hk, BitVec.toNat_add]
    have hppa : (PTE.ppa (userEntry 0)).toNat = 0x40000000 := by decide
    omega
  · cases (userRAM_peek _).symm.trans hread
    cases (userEntry_dir _).symm.trans hdir

/-- Every byte of a device that the bus finds is at an index from its address on. -/
theorem userRAM_reaches {addr size : Word} {h : DevHandle} {i : Nat}
    (hr : userRAM.Reaches addr size h i) :
    addr.toNat ≤ i ∧ i < addr.toNat + size.toNat := by
  obtain ⟨-, hfirst, hlast⟩ := hr
  rw [show addr - (userRAM.obj h).devBaseAddr = addr from BitVec.sub_zero addr] at hfirst hlast
  exact ⟨hfirst, hlast⟩

theorem userRAM_tableBytes {h : DevHandle} {i : Nat} (ht : TableBytes userSatp userRAM h i) :
    i < 4096 := by
  obtain ⟨v, addr, hw, hr⟩ := ht
  have haddr := userRAM_walkReads hw
  have hlast := (userRAM_reaches hr).2
  rw [show (8 : Word).toNat = 8 from rfl] at hlast
  omega

theorem userRAM_userBytes {kind : AccessKind} {h : DevHandle} {i : Nat}
    (hu : UserBytes userSatp userRAM kind h i) : 0x40000000 ≤ i := by
  obtain ⟨addr, size, haddr, -, hr⟩ := hu
  exact (userRAM_userAddr haddr).trans (userRAM_reaches hr).1

theorem userRAM_apart : Apart userSatp userRAM := by
  intro h i hu ht
  have := userRAM_userBytes hu
  have := userRAM_tableBytes ht
  omega

theorem userRAM_seen :
    AgreeOn (Visible userSatp userRAM) userRAM (RAMBus.stored userRAM 0 4096 1 [7]) := by
  refine ⟨RAMBus.sameMap_stored userRAM 0 4096 1 [7], fun h i hv => ?_⟩
  rw [RAMBus.memData_stored, if_neg]
  rintro ⟨-, hfirst, hlast⟩
  rw [show (4096 : Word).toNat = 4096 from rfl] at hfirst hlast
  rw [show (1 : Word).toNat = 1 from rfl] at hlast
  rcases hv with ht | ⟨kind, hu⟩
  · have := userRAM_tableBytes ht
    omega
  · have := userRAM_userBytes hu
    omega

theorem tlbInv_new {satp : Word} (storage : RV64SV39MMU) (b : RAMBus) :
    TLBInv satp b (fun _ => False) (construct storage) := (sameTruth_new storage b []).left

/-- The store, and the trap after it, whatever the byte that U-mode may not see. -/
theorem user_secrecy_store :
    (userMachine.mem.sysBus.obj 0).dev.memData 4096 ≠ (userMachine'.mem.sysBus.obj 0).dev.memData 4096 ∧
      Lock userMachine userMachine' (userRun [default, default]) (userRun [default, default])
        fun _ _ n n' => n.core = n'.core ∧
          AgreeOn (Visible userSatp userRAM) n.mem.sysBus n'.mem.sysBus ∧
          n.mem.mmu.reservation = n'.mem.mmu.reservation := by
  have hcore : userMachine.core = userMachine'.core := rfl
  have hres : userMachine.mem.mmu.reservation = userMachine'.mem.mmu.reservation := rfl
  refine ⟨by decide +kernel, ?_⟩
  exact user_secrecy (by decide) userRAM_apart hcore userRAM_seen hres (tlbInv_new default _)
    (tlbInv_new default _) _

theorem user_integrity_store :
    ∃ n, (userRun [default, default]).run userMachine = .ok () n ∧ Isolated userMachine n ∧
      n.mode = .mMode := by
  have hok : (Run.result ((userRun [default, default]).run userMachine)).toOption.isSome = true := by
    decide +kernel
  have hmode : (Run.final ((userRun [default, default]).run userMachine)).mode = .mMode := by
    decide +kernel
  cases hr : (userRun [default, default]).run userMachine with
  | error e n =>
      rw [hr] at hok
      cases hok
  | ok _ n =>
      rw [hr] at hmode
      exact ⟨n, rfl, user_integrity (m := userMachine) (by decide) userRAM_apart
        (tlbInv_new default _) hr, hmode⟩

end MEmu
