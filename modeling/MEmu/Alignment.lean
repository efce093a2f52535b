import MEmu.Retirement
import MEmu.RvcFields

/-!
# The alignment of the PC

Where the PC, `mepc` and `sepc` are even, and what keeps them so.  Every jump target
is checked or even by its format, a trap vector is a multiple of 4, and a trap saves
the PC.  `csr_write` stores what it is given, so the one way to an odd PC is a write
to `mepc` or `sepc`.
-/

namespace MEmu

/-! ## Even words -/

theorem aligned_zero : (0 : Word) % RV64Core.PC_ALIGN = 0 := by decide

theorem aligned_vectorPC (tvec cause : Word) :
    RV64Core.vectorPC tvec cause % RV64Core.PC_ALIGN = 0 := by
  unfold RV64Core.vectorPC
  refine aligned_add ?_ ?_
  · rw [aligned_iff, BitVec.toNat_shiftLeft, Nat.shiftLeft_eq]
    omega
  · split
    · have hfour : (4 : Word).toNat = 4 := rfl
      rw [aligned_iff, BitVec.toNat_mul, hfour]
      omega
    · exact aligned_zero

/-- A word in its two halves. -/
theorem exists_halves (inst : BitVec 32) : ∃ hi w : BitVec 16, inst = hi ++ w := by
  refine ⟨inst.extractLsb' 16 16, inst.extractLsb' 0 16, ?_⟩
  have h : (inst : BitVec (16 + 16)).extractLsb' 16 16 ++ (inst : BitVec (16 + 16)).extractLsb' 0 16
      = inst := BitVec.extractLsb'_append_extractLsb'
  exact h.symm

theorem aligned_rvcOffset {inst : BitVec 32} {imm : Word}
    (h : imm = RVC.immJ inst ∨ imm = RVC.immB inst) : imm % RV64Core.PC_ALIGN = 0 := by
  obtain ⟨hi, w, rfl⟩ := exists_halves inst
  rcases h with rfl | rfl
  · rw [RVC.immJ_append]
    exact aligned_offset _ (by decide)
  · rw [RVC.immB_append]
    exact aligned_offset _ (by decide)

/-- The PC that follows an instruction. -/
theorem aligned_next {pc : Word} (h : pc % RV64Core.PC_ALIGN = 0) (comp : Bool) :
    (pc + if comp then 2 else 4) % RV64Core.PC_ALIGN = 0 :=
  aligned_add h (by cases comp <;> decide)

/-! ## The core through a step -/

/-- The PC, `mepc` and `sepc` are even. -/
structure EvenPCs (c : RV64Core) : Prop where
  pc : c.currentProgramCounter % RV64Core.PC_ALIGN = 0
  mepc : c.csrMExceptionPC % RV64Core.PC_ALIGN = 0
  sepc : c.csrSExceptionPC % RV64Core.PC_ALIGN = 0

/-- They are at the exit path, and so is the PC that a trap or a return goes to. -/
structure EvenAtExit (c : RV64Core) : Prop extends EvenPCs c where
  trap : c.needTrap = true → c.trapProgramCounter % RV64Core.PC_ALIGN = 0

namespace EvenPCs

variable {c : RV64Core}

theorem atExit (h : EvenPCs c) (hn : c.needTrap = false) : EvenAtExit c :=
  ⟨h, fun ht => absurd (hn ▸ ht) Bool.false_ne_true⟩

theorem trapped (h : EvenPCs c) (cause tval : Word) : EvenAtExit (c.trapped cause tval) := by
  rcases RV64Core.trapped_cases cause tval c with ⟨-, ht⟩ | ⟨-, ht⟩ <;> rw [ht]
  · exact ⟨⟨h.pc, h.mepc, h.pc⟩, fun _ => aligned_vectorPC _ _⟩
  · exact ⟨⟨h.pc, h.pc, h.sepc⟩, fun _ => aligned_vectorPC _ _⟩

theorem setGPR (h : EvenPCs c) (rd : BitVec 5) (value : Word) : EvenPCs (c.setGPR rd value) := by
  rw [RV64Core.setGPR_eq]
  exact ⟨h.pc, h.mepc, h.sepc⟩

theorem setPC (h : EvenPCs c) {npc : Word} (hnpc : npc % RV64Core.PC_ALIGN = 0) :
    EvenPCs (c.setPC npc) := ⟨hnpc, h.mepc, h.sepc⟩

/-- A CSR write keeps them if an exception PC is written with an even value. -/
theorem csrWrite {c' : RV64Core} (h : EvenPCs c) {a : CSRAddr} {v : Word}
    (hw : c.csrWriteCase v a = some c')
    (hv : a = .mepc ∨ a = .sepc → v % RV64Core.PC_ALIGN = 0) : EvenPCs c' := by
  have honly := RV64Core.csrWriteCase_only hw
  refine ⟨honly.currentProgramCounter ▸ h.pc, ?_, ?_⟩
  · by_cases ha : a = .mepc
    · subst ha
      cases hw
      exact hv (.inl rfl)
    · rw [honly.mepc ha]
      exact h.mepc
  · by_cases ha : a = .sepc
    · subst ha
      cases hw
      exact hv (.inr rfl)
    · rw [honly.sepc ha]
      exact h.sepc

end EvenPCs

theorem Ends.even {c c' : RV64Core} {inst : BitVec 32} {a : Action} {flags : ExecFlags}
    (h : Ends c a flags c') (hd : Decodes inst c a) (hn : c.needTrap = false) (hc : EvenPCs c)
    (hw : ∀ (a : CSRAddr) v, csrWriteOf inst c = some (a.val, v) → a = .mepc ∨ a = .sepc →
      v % RV64Core.PC_ALIGN = 0) : EvenAtExit (c'.atExit inst flags) := by
  cases h with
  | illegal => exact hc.trapped _ _
  | linkTraps | branchTraps | fault | ecall | ebreak =>
      rw [atExit_legal rfl]
      exact hc.trapped _ _
  | set rd value | value op rd value =>
      rw [atExit_legal rfl]
      exact (hc.setGPR rd value).atExit ((c.setGPR_needTrap rd value).trans hn)
  | jump npc =>
      rw [atExit_legal rfl]
      cases hd with
      | jump imm himm =>
          exact (hc.setPC (aligned_add hc.pc (aligned_rvcOffset himm))).atExit hn
  | link rd ret npc hnpc =>
      rw [atExit_legal rfl]
      exact ((hc.setGPR rd ret).setPC hnpc).atExit ((c.setGPR_needTrap rd ret).trans hn)
  | branch npc hnpc =>
      rw [atExit_legal rfl]
      exact (hc.setPC hnpc).atExit hn
  | csr a value old rd d hcase =>
      rw [atExit_legal rfl]
      cases hd with
      | csr _ _ _ _ _ hperm hwrite _ =>
          refine ((hc.csrWrite hcase (hw a value hwrite)).setGPR rd old).atExit ?_
          rw [RV64Core.setGPR_needTrap, (RV64Core.csrWriteCase_only hcase).needTrap, hn]
  | mret =>
      rw [atExit_legal rfl]
      exact ⟨⟨hc.pc, hc.mepc, hc.sepc⟩, fun _ => hc.mepc⟩
  | sret =>
      rw [atExit_legal rfl]
      exact ⟨⟨hc.pc, hc.mepc, hc.sepc⟩, fun _ => hc.sepc⟩
  | sfence =>
      rw [atExit_legal rfl]
      exact hc.atExit hn

theorem EvenAtExit.retire {c : RV64Core} (h : EvenAtExit c) (comp : Bool) (flags : ExecFlags) :
    EvenPCs (c.retire comp flags) := by
  refine ⟨?_, h.mepc, h.sepc⟩
  show RV64Core.exitPC comp flags c % RV64Core.PC_ALIGN = 0
  unfold RV64Core.exitPC
  split
  · exact h.trap ‹_›
  split
  · exact h.pc
  · exact aligned_next h.pc comp

/-! ## Runs -/

section Runs

variable {β : Type} [MMIOBus β]

/-- The step from `m` executes a CSR instruction that writes an odd value to `mepc` or
`sepc`. -/
def WritesOddEpc (m : Machine β) : Prop :=
  ∃ inst m₁ a v, fetchInst.run m = .ok (some inst) m₁ ∧
    csrWriteOf inst m₁.core = some (CSRAddr.val a, v) ∧ (a = .mepc ∨ a = .sepc) ∧
    v % RV64Core.PC_ALIGN ≠ 0

/-- From even PCs a completed step leads to even PCs unless it writes an odd exception
PC. -/
theorem evenPCs_step_iff {m m' : Machine β} {fb : FuncReturnFeedback}
    (h : stepCoreAPI.run m = .ok fb m') (hm : EvenPCs m.core) :
    EvenPCs m'.core ↔ ¬WritesOddEpc m := by
  have hbegun : EvenPCs m.begun := ⟨hm.pc, hm.mepc, hm.sepc⟩
  rcases stepCoreAPI_actions h with ⟨cause, tval, hcore, s, hf⟩ | ⟨inst, s, flags, c, hf, hends, hcore⟩
  · refine iff_of_true (hcore ▸ (hbegun.trapped cause tval).retire _ _) ?_
    rintro ⟨inst, m₁, a, v, hf', -⟩
    cases hf.symm.trans hf'
  constructor
  · rintro heven ⟨inst', m₁, a, v, hf', hwrite, ha, hv⟩
    cases hf.symm.trans hf'
    obtain ⟨c', hcase⟩ : ∃ c', m.begun.csrWriteCase v a = some c' := by
      rcases ha with rfl | rfl <;> exact ⟨_, rfl⟩
    obtain ⟨old, haction⟩ := action_of_csrWrite hwrite hcase
    rw [haction] at hends
    cases hends with
    | csr _ _ _ rd d hcase =>
        rw [atExit_legal rfl, RV64Core.setGPR_eq] at hcore
        rw [hcore] at heven
        rcases ha with rfl | rfl <;> cases hcase
        · exact hv heven.mepc
        · exact hv heven.sepc
  · intro hno
    rw [hcore]
    refine (hends.even (action_decodes inst m.begun) (needTrap_begun m) hbegun ?_).retire _ _
    intro a v hwrite ha
    by_contra hv
    exact hno ⟨inst, _, a, v, hf, hwrite, ha, hv⟩

/-- A run from even PCs that writes no odd exception PC ends with even PCs. -/
theorem CoreRun.even {c₀ c : RV64Core} {steps : List (Machine β × RV64Core)}
    (h : CoreRun c₀ steps c) (h₀ : EvenPCs c₀) (hno : ∀ p ∈ steps, ¬WritesOddEpc p.1) :
    EvenPCs c := by
  induction h with
  | start => exact h₀
  | lines h lines ih =>
      obtain ⟨hpc, hmepc, hsepc⟩ := ih hno
      exact ⟨hpc, hmepc, hsepc⟩
  | @step steps m m' fb h hstep ih =>
      have hm := ih fun p hp => hno p (List.mem_append_left _ hp)
      have hlast := hno (m, m'.core) (List.mem_append_right _ (List.mem_singleton.mpr rfl))
      exact (evenPCs_step_iff hstep hm).mpr hlast

/-- In a run from even PCs they stay even in every later state exactly if no step writes
an odd exception PC. -/
theorem pcs_even_iff {c₀ c : RV64Core} {steps : List (Machine β × RV64Core)}
    (h : CoreRun c₀ steps c) (h₀ : EvenPCs c₀) :
    (∀ p ∈ steps, EvenPCs p.2) ↔ ∀ p ∈ steps, ¬WritesOddEpc p.1 := by
  induction h with
  | start => simp
  | lines h lines ih => exact ih
  | @step steps m m' fb h hstep ih =>
      simp only [List.forall_mem_append, List.forall_mem_singleton, ih]
      refine and_congr_right fun hno => ?_
      exact evenPCs_step_iff hstep (h.even h₀ hno)

end Runs

/-- A run that writes `mepc`, returns to it, and traps. -/
theorem pcs_even_iff_visitUser :
    ∃ steps : List (Machine (MEmuMMIOBus MMIOMem) × RV64Core),
      CoreRun (runFrom visitUser 0).core steps (runFrom visitUser 7).core ∧ steps.length = 7 ∧
        ((∀ p ∈ steps, EvenPCs p.2) ↔ ∀ p ∈ steps, ¬WritesOddEpc p.1) :=
  have h₀ : EvenPCs (runFrom visitUser 0).core := ⟨by decide, by decide, by decide⟩
  ⟨_, visitUser_returns.coreRun, rfl, pcs_even_iff visitUser_returns.coreRun h₀⟩

/-- `csrrwi x0, mepc, 1; mret`. -/
def oddMepc : List Byte := [0x73, 0xd0, 0x10, 0x34, 0x73, 0x00, 0x20, 0x30]

/-- The first step of that program leaves `mepc` odd, and the second the PC. -/
theorem odd_pc_reachable :
    ¬∀ (c₀ c : RV64Core) (steps : List (Machine (MEmuMMIOBus MMIOMem) × RV64Core)),
      CoreRun c₀ steps c → EvenPCs c₀ → c.currentProgramCounter % RV64Core.PC_ALIGN = 0 := by
  intro h
  have h₀ : stepCoreAPI.run (runFrom oddMepc 0)
      = .ok .ok (Run.final (stepCoreAPI.run (runFrom oddMepc 0))) := by rfl
  have h₁ : stepCoreAPI.run (runFrom oddMepc 1)
      = .ok .ok (Run.final (stepCoreAPI.run (runFrom oddMepc 1))) := by rfl
  have hrun : CoreRun (runFrom oddMepc 0).core _ _ :=
    ((CoreRun.start.step h₀).lines default).step (m := runFrom oddMepc 1) h₁
  have hodd := h _ _ _ hrun ⟨by decide, by decide, by decide⟩
  revert hodd
  decide +kernel

end MEmu
