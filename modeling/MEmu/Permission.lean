import MEmu.Access
import MEmu.Sv39
import MEmu.Modes

/-!
# The permission of a load

A translated load or load-reserved goes through `loadCheck`, which differs from the
rule of Sv39 in two places: `MXR` opens no page that is executable only, and `SUM`
is asked for in the current mode, where it is the effective mode that counts.
-/

namespace MEmu

open Run (Sat)
open RV64SV39MMU

/-! ## The rule -/

/-- The entry is one that `writeTLB` makes of a leaf. -/
def IsLeafEntry (e : SV39TLBEntry) : Prop :=
  ∃ satp pte ps v, isValidLeafPTE pte = true ∧ ps ≠ .invalid ∧ e = leafEntry satp pte ps v

theorem IsLeafEntry.pagesize {e : SV39TLBEntry} (h : IsLeafEntry e) : e.pagesize.bytes ≠ 0 := by
  obtain ⟨_, _, ps, _, -, hps, rfl⟩ := h
  show ps.bytes ≠ 0
  cases ps with
  | invalid => exact absurd rfl hps
  | size4K | size2M | size1G => decide

theorem IsLeafEntry.X {e : SV39TLBEntry} (h : IsLeafEntry e) (hR : e.R = false) : e.X = true := by
  obtain ⟨_, _, _, _, hleaf, -, rfl⟩ := h
  exact X_of_leaf hleaf hR

/-- The rule of Sv39 for a load through an entry. -/
def LoadAllowed (env : MMUEnv) (e : SV39TLBEntry) : Prop :=
  e.A = true ∧ (e.R = true ∨ MStatus.mxr env.status = true ∧ e.X = true) ∧
    (env.priv = .uMode → e.U = true) ∧
    (env.priv = .sMode → MStatus.sum env.status = true ∨ e.U = false)

instance (env : MMUEnv) (e : SV39TLBEntry) : Decidable (LoadAllowed env e) :=
  inferInstanceAs (Decidable (_ ∧ _))

/-- The entries that `loadCheck` judges by the rule. -/
def LoadJudged (env : MMUEnv) (e : SV39TLBEntry) : Prop :=
  e.A = true →
    if e.R = true then ¬ (env.priv = .sMode ∧ e.U = true ∧ MStatus.sum env.status = false)
    else ¬ (MStatus.mxr env.status = true ∧ (env.priv = .uMode → e.U = true) ∧
      (env.priv = .sMode → MStatus.sum env.status = true ∨ e.U = false))

instance (env : MMUEnv) (e : SV39TLBEntry) : Decidable (LoadJudged env e) :=
  inferInstanceAs (Decidable (_ → _))

theorem MMUEnv.priv_of_sMode {env : MMUEnv} (h : env.currentPrivMode = .sMode) :
    env.priv = .sMode := by
  rw [MMUEnv.priv, h]
  simp

/-- An entry that is not readable is refused, whatever `MXR` says. -/
theorem loadCheck_unreadable {φ : Type} (env : MMUEnv) (pgfault accfault : φ) {e : SV39TLBEntry}
    (he : IsLeafEntry e) (hR : e.R = false) : loadCheck env pgfault accfault e = some pgfault := by
  rw [loadCheck, hR, he.X hR]
  simp

/-- A readable entry, past the first comparison of the check. -/
theorem loadCheck_readable {φ : Type} (env : MMUEnv) (pgfault accfault : φ) {e : SV39TLBEntry}
    (hA : e.A = true) (hR : e.R = true) :
    loadCheck env pgfault accfault e
      = if env.priv = .uMode ∧ e.U = false then some pgfault
        else if env.currentPrivMode = .sMode ∧ e.U = true ∧ MStatus.sum env.status = false then
          some accfault
        else none := by
  rw [loadCheck, hA, hR]
  cases e.U <;> cases MStatus.sum env.status <;> simp

/-- The check is the rule for the entries that it judges by the rule, and for no others. -/
theorem loadCheck_iff_judged {φ : Type} (env : MMUEnv) {pgfault accfault : φ}
    (hne : accfault ≠ pgfault) {e : SV39TLBEntry} (he : IsLeafEntry e) :
    loadCheck env pgfault accfault e = (if LoadAllowed env e then none else some pgfault) ↔
      LoadJudged env e := by
  cases hA : e.A with
  | false =>
      have hcheck : loadCheck env pgfault accfault e = some pgfault := by
        rw [loadCheck, hA]
        rfl
      have hno : ¬LoadAllowed env e := fun h => Bool.false_ne_true (hA.symm.trans h.1)
      rw [hcheck, if_neg hno]
      exact iff_of_true rfl fun h => absurd (hA.symm.trans h) Bool.false_ne_true
  | true =>
      cases hR : e.R with
      | false =>
          rw [loadCheck_unreadable env pgfault accfault he hR]
          simp only [LoadAllowed, LoadJudged, hA, hR, he.X hR, Bool.false_eq_true, false_or, and_true,
            true_and, if_false, forall_const]
          split
          · rename_i h
            exact iff_of_false (fun hn => by cases hn) fun hn => hn h
          · rename_i h
            exact iff_of_true rfl h
      | true =>
          rw [loadCheck_readable env pgfault accfault hA hR]
          simp only [LoadAllowed, LoadJudged, hA, hR, true_or, true_and, if_true, forall_const]
          split
          · rename_i hu
            rw [if_neg fun h => Bool.false_ne_true (hu.2.symm.trans (h.1 hu.1))]
            refine iff_of_true rfl fun h => ?_
            rw [hu.1] at h
            cases h.1
          rename_i hu
          split
          · rename_i hs
            have hpriv := MMUEnv.priv_of_sMode hs.1
            have hno : ¬((env.priv = .uMode → e.U = true) ∧
                (env.priv = .sMode → MStatus.sum env.status = true ∨ e.U = false)) := by
              rintro ⟨-, h⟩
              have := h hpriv
              rw [hs.2.1, hs.2.2] at this
              simp at this
            rw [if_neg hno]
            exact iff_of_false (fun h => hne (Option.some.inj h)) fun h => h ⟨hpriv, hs.2⟩
          · rename_i hs
            split
            · rename_i hall
              refine iff_of_true rfl fun h => ?_
              have := hall.2 h.1
              rw [h.2.1, h.2.2] at this
              simp at this
            · rename_i hno
              refine iff_of_false (fun hn => by cases hn) fun h =>
                hno ⟨fun hp => ?_, fun hp => ?_⟩
              · rw [not_and, Bool.not_eq_false] at hu
                exact hu hp
              · cases hU : e.U with
                | false => exact .inr rfl
                | true =>
                    cases hsum : MStatus.sum env.status with
                    | true => exact .inl rfl
                    | false => exact absurd ⟨hp, hU, hsum⟩ h

/-! ## The access -/

/-- A load or a load-reserved. -/
def MemOp.reads : MemOp → Bool
  | load .. | loadReserved .. => true
  | _ => false

/-- An access of one, two, four or eight bytes at a multiple of its size. -/
def MemOp.Aligned (op : MemOp) : Prop :=
  op.size ∈ ([1, 2, 4, 8] : List Word) ∧ op.addr % op.size = 0

theorem MemOp.Aligned.onePage {op : MemOp} (h : op.Aligned) : InPage op.addr op.size :=
  .of_aligned h.1 h.2

section Access

variable {β : Type} [MMIOBus β]

/-- The run of the paged path of an access within a page, where an entry is found. -/
theorem run_pagedAddr {φ : Type} {env : MMUEnv} {begin_addr size : Word} {misalign pgfault : φ}
    {check : SV39TLBEntry → Option φ} {s s₁ : MMUSys β} {i : TLBIndex}
    (hpage : InPage begin_addr size)
    (hentry : (MMUSys.getTLBEntry env begin_addr).run s = .ok (some i) s₁)
    (hsize : (s₁.mmu.tlb i).pagesize.bytes ≠ 0) :
    (MMUSys.pagedAddr env begin_addr size misalign pgfault check).run s
      = .ok (match check (s₁.mmu.tlb i) with
          | some fault => .error fault
          | none => .ok ((s₁.mmu.tlb i).ppa + begin_addr % (s₁.mmu.tlb i).pagesize.bytes)) s₁ := by
  rw [InPage] at hpage
  rw [MMUSys.pagedAddr, if_neg (not_not.mpr hpage), EStateM.run_bind, hentry]
  dsimp only
  rw [EStateM.run_bind, EStateM.run_get]
  dsimp only
  cases check (s₁.mmu.tlb i) with
  | some fault => rfl
  | none =>
      dsimp only
      rw [cassert, if_pos hsize]
      rfl

/-- The one bus access of the operation is made, at `paddr`. -/
def AccessMade (op : MemOp) (paddr : Word) (s s' : MMUSys β) : Prop :=
  ∃ kind done, kind ∈ op.kinds ∧ s'.busLog = s.busLog ++ [⟨kind, paddr, op.size, done⟩]

omit [MMIOBus β] in
theorem AccessMade.ne {op : MemOp} {paddr : Word} {s s' : MMUSys β} (h : AccessMade op paddr s s') :
    s' ≠ s := by
  rintro rfl
  obtain ⟨_, _, -, hlog⟩ := h
  exact List.cons_ne_nil _ _ (List.self_eq_append_right.mp hlog)

/-- A permitted load makes its read. -/
theorem reads_access {op : MemOp} (hop : op.reads = true) (env : MMUEnv) (paddr : Word)
    (s : MMUSys β) : AccessMade op paddr s (Run.final ((op.access env false paddr).run s)) := by
  have hmade (kind : AccessKind) (hkind : kind ∈ op.kinds) (mmu : RV64SV39MMU) (b : β)
      (done : Bool) : AccessMade op paddr s
        { mmu := mmu, sysBus := b, busLog := s.busLog ++ [⟨kind, paddr, op.size, done⟩] } :=
    ⟨kind, done, hkind, rfl⟩
  cases op with
  | load addr size signed =>
      have hload := hmade .load (List.mem_singleton.mpr rfl)
      exact Sat.final (.bind (busCall_sat (fun r b _ => .pure (hload _ _ _)) fun e b _ => hload _ _ _))
  | loadReserved addr size =>
      have hload := hmade .loadReserved (List.mem_singleton.mpr rfl)
      refine Sat.final (.bind (.bind (MMUSys.onMMU_sat (.modify ?_))))
      exact .bind (busCall_sat (fun r b _ => .pure (.pure (hload _ _ _))) fun e b _ => hload _ _ _)
  | store | storeConditional | amo => cases hop

/-- What the rule asks of a load through the entry `e`, where `s₁` is the memory once the
entry is found: the read is made, or a page fault is reported and nothing is read. -/
def FollowsLoadRule (env : MMUEnv) (op : MemOp) (e : SV39TLBEntry) (s₁ : MMUSys β)
    (r : EStateM.Result Abort (MMUSys β) (Except ExecFeedbackCode Word)) : Prop :=
  if LoadAllowed env e then
    AccessMade op (e.ppa + op.addr % e.pagesize.bytes) s₁ (Run.final r)
  else r = .ok (.error op.pgfault) s₁

/-- A translated load or load-reserved follows the rule exactly where its entry is judged
by it. -/
theorem load_follows_rule {env : MMUEnv} {op : MemOp} (hop : op.reads = true)
    (halign : op.Aligned) (hpaged : env.bareData = false) {s s₁ : MMUSys β} {i : TLBIndex}
    (hentry : (MMUSys.getTLBEntry env op.addr).run s = .ok (some i) s₁)
    (hleaf : IsLeafEntry (s₁.mmu.tlb i)) :
    FollowsLoadRule env op (s₁.mmu.tlb i) s₁ ((op.perform env).run s) ↔
      LoadJudged env (s₁.mmu.tlb i) := by
  have hrun : (op.perform env).run s
      = match op.check env (s₁.mmu.tlb i) with
        | some fault => .ok (.error fault) s₁
        | none => (op.access env false
            ((s₁.mmu.tlb i).ppa + op.addr % (s₁.mmu.tlb i).pagesize.bytes)).run s₁ := by
    rw [MemOp.perform_eq, MemOp.path, if_neg fun h => h.2 halign.2,
      if_neg (by rw [hpaged]; exact Bool.false_ne_true), EStateM.run_bind,
      run_pagedAddr halign.onePage hentry hleaf.pagesize]
    cases op.check env (s₁.mmu.tlb i) <;> rfl
  have hcheck : op.check env = loadCheck env op.pgfault op.accFault := by
    cases op with
    | load | loadReserved => rfl
    | store | storeConditional | amo => cases hop
  have hne : op.accFault ≠ op.pgfault := by cases op <;> exact ExecFeedbackCode.noConfusion
  have hmade := reads_access hop env
    ((s₁.mmu.tlb i).ppa + op.addr % (s₁.mmu.tlb i).pagesize.bytes) s₁
  rw [← loadCheck_iff_judged env hne hleaf, ← hcheck, hrun, FollowsLoadRule]
  cases hc : op.check env (s₁.mmu.tlb i) with
  | none =>
      dsimp only
      split
      · exact iff_of_true hmade rfl
      · exact iff_of_false (fun h => hmade.ne (congrArg Run.final h)) fun h => by cases h
  | some fault =>
      dsimp only
      split
      · exact iff_of_false (fun h => h.ne rfl) (Option.some_ne_none fault)
      · constructor
        · intro h
          cases h
          rfl
        · intro h
          cases h
          rfl

end Access

/-! ## Two pages -/

/-- Sv39 in S-mode with `MXR`, and the root page table at address 0. -/
def readsExecutable : MMUEnv :=
  { (default : MMUEnv) with
    currentPrivMode := .sMode
    satp := 8 <<< 60
    status := 1 <<< 19 }

/-- A new MMU on a bus whose root table maps the first GiB with the given flags. -/
def firstGiB (flags : Byte) : MMUSys (MEmuMMIOBus MMIOMem) :=
  ⟨construct default, MMIOMem.busOfBytes [flags, 0, 0, 0, 0, 0, 0, 0], []⟩

/-- The entry that the first access fills. -/
def firstEntry (pte : Word) : SV39TLBEntry := leafEntry readsExecutable.satp pte .size1G 0

theorem isLeafEntry_firstEntry {pte : Word} (h : isValidLeafPTE pte = true) :
    IsLeafEntry (firstEntry pte) :=
  ⟨_, pte, .size1G, 0, h, PageSize.noConfusion, rfl⟩

/-- A page that is readable. -/
theorem load_follows_rule_readable :
    ∃ i s₁, (MMUSys.getTLBEntry readsExecutable 0).run (firstGiB 0x43) = .ok (some i) s₁ ∧
      FollowsLoadRule readsExecutable (.load 0 8 true) (s₁.mmu.tlb i) s₁
        (((MemOp.load 0 8 true).perform readsExecutable).run (firstGiB 0x43)) := by
  have hentry : (MMUSys.getTLBEntry readsExecutable 0).run (firstGiB 0x43)
      = .ok (some 0) (Run.final ((MMUSys.getTLBEntry readsExecutable 0).run (firstGiB 0x43))) := by
    rfl
  have he : (Run.final ((MMUSys.getTLBEntry readsExecutable 0).run (firstGiB 0x43))).mmu.tlb 0
      = firstEntry 0x43 := by rfl
  generalize Run.final ((MMUSys.getTLBEntry readsExecutable 0).run (firstGiB 0x43)) = s₁ at *
  have hleaf : IsLeafEntry (s₁.mmu.tlb 0) := by
    rw [he]
    exact isLeafEntry_firstEntry (by decide)
  have hrule : FollowsLoadRule readsExecutable (.load 0 8 true) (s₁.mmu.tlb 0) s₁
      (((MemOp.load 0 8 true).perform readsExecutable).run (firstGiB 0x43)) ↔
        LoadJudged readsExecutable (s₁.mmu.tlb 0) :=
    load_follows_rule rfl ⟨by decide, by decide⟩ (by decide) hentry hleaf
  refine ⟨0, s₁, hentry, hrule.mpr ?_⟩
  rw [he]
  decide

/-- A page that is executable only: `MXR` permits the load, and the code refuses it. -/
theorem load_refused_executable :
    ∃ i s₁, (MMUSys.getTLBEntry readsExecutable 0).run (firstGiB 0x49) = .ok (some i) s₁ ∧
      IsLeafEntry (s₁.mmu.tlb i) ∧ LoadAllowed readsExecutable (s₁.mmu.tlb i) ∧
      ¬FollowsLoadRule readsExecutable (.load 0 8 true) (s₁.mmu.tlb i) s₁
        (((MemOp.load 0 8 true).perform readsExecutable).run (firstGiB 0x49)) := by
  have hentry : (MMUSys.getTLBEntry readsExecutable 0).run (firstGiB 0x49)
      = .ok (some 0) (Run.final ((MMUSys.getTLBEntry readsExecutable 0).run (firstGiB 0x49))) := by
    rfl
  have he : (Run.final ((MMUSys.getTLBEntry readsExecutable 0).run (firstGiB 0x49))).mmu.tlb 0
      = firstEntry 0x49 := by rfl
  have hallowed : LoadAllowed readsExecutable (firstEntry 0x49) := by decide
  refine ⟨0, _, hentry, ?_, ?_, fun h => ?_⟩
  · rw [he]
    exact isLeafEntry_firstEntry (by decide)
  · rw [he]
    exact hallowed
  · rw [he, FollowsLoadRule, if_pos hallowed] at h
    obtain ⟨_, _, -, hlog⟩ := h
    have hlen := congrArg List.length hlog
    rw [List.length_append, List.length_singleton] at hlen
    exact absurd hlen (by decide)

end MEmu
