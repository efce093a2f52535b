import MEmu.Modes

/-!
# Retired instructions

What the two counters of the core count over a run.  A step retires an instruction
where it completes without a trap.  The exit path infers that from `needTrap`,
which `mret` and `sret` set too, since they send the PC where a trap would.
-/

namespace MEmu

section Runs

variable {β : Type} [MMIOBus β]

/-! ## Runs with their steps -/

/-- The runs of a core from `c₀`: the steps it completed, each as the machine it
started from and the core it left, and the core at the end.  Between two steps the
interrupt lines and everything outside the core change at will. -/
inductive CoreRun (c₀ : RV64Core) : List (Machine β × RV64Core) → RV64Core → Prop where
  | start : CoreRun c₀ [] c₀
  | lines {steps : List (Machine β × RV64Core)} {c : RV64Core} (h : CoreRun c₀ steps c)
      (lines : IntStatus) : CoreRun c₀ steps { c with intStatus := lines }
  | step {steps : List (Machine β × RV64Core)} {m m' : Machine β} {fb : FuncReturnFeedback}
      (h : CoreRun c₀ steps m.core) (hstep : stepCoreAPI.run m = .ok fb m') :
      CoreRun c₀ (steps ++ [(m, m'.core)]) m'.core

/-- What holds of every completed step holds of every step of a run. -/
theorem CoreRun.each {P : Machine β → RV64Core → Prop} {c₀ c : RV64Core}
    {steps : List (Machine β × RV64Core)} (h : CoreRun c₀ steps c)
    (hstep : ∀ m m' fb, stepCoreAPI.run m = .ok fb m' → P m m'.core) :
    ∀ p ∈ steps, P p.1 p.2 := by
  induction h with
  | start => exact fun p hp => absurd hp List.not_mem_nil
  | lines h lines ih => exact ih
  | @step steps m m' fb h hs ih =>
      intro p hp
      rcases List.mem_append.mp hp with hp | hp
      · exact ih p hp
      · obtain rfl := List.mem_singleton.mp hp
        exact hstep m m' fb hs

end Runs

/-! ## The counters through an action -/

namespace Action

/-- The action leaves a trap. -/
def returns : Action → Bool
  | mret | sret => true
  | _ => false

/-- The action writes `mcycle`. -/
def writesMCycle : Action → Bool
  | csr .mcycle _ _ _ => true
  | _ => false

end Action

theorem action_mret {c : RV64Core} (h : c.currentPrivMode = .mMode) :
    action RiscV.mret c = .mret := by
  have hpriv : action RiscV.mret c = .permitted (c.currentPrivMode == .mMode) .mret := rfl
  rw [hpriv, h]
  rfl

theorem action_sret {c : RV64Core} (h : c.sretPermitted = true) : action RiscV.sret c = .sret := by
  have hpriv : action RiscV.sret c = .permitted c.sretPermitted .sret := rfl
  rw [hpriv, h]
  rfl

namespace RV64Core

/-- The fields that a write of `a` changes only where `a` is the register they hold, and
those that the exit path reads. -/
structure CsrOnly (a : CSRAddr) (c c' : RV64Core) : Prop where
  mcycle : a ≠ .mcycle → c'.csrMCycleNum = c.csrMCycleNum
  mepc : a ≠ .mepc → c'.csrMExceptionPC = c.csrMExceptionPC
  sepc : a ≠ .sepc → c'.csrSExceptionPC = c.csrSExceptionPC
  currentProgramCounter : c'.currentProgramCounter = c.currentProgramCounter
  needTrap : c'.needTrap = c.needTrap

/-- A write of a control register writes what belongs to that register. -/
theorem csrWriteCase_only {v : Word} {c c' : RV64Core} {a : CSRAddr}
    (h : c.csrWriteCase v a = some c') : CsrOnly a c c' := by
  cases a <;> simp only [csrWriteCase, reduceCtorEq, Option.some.injEq] at h
  case satp =>
    split at h <;> cases h
    exact ⟨fun _ => rfl, fun _ => rfl, fun _ => rfl, rfl, rfl⟩
  case mcycle =>
    subst h
    exact ⟨fun ha => absurd rfl ha, fun _ => rfl, fun _ => rfl, rfl, rfl⟩
  case mepc =>
    subst h
    exact ⟨fun _ => rfl, fun ha => absurd rfl ha, fun _ => rfl, rfl, rfl⟩
  case sepc =>
    subst h
    exact ⟨fun _ => rfl, fun _ => rfl, fun ha => absurd rfl ha, rfl, rfl⟩
  all_goals
    subst h
    exact ⟨fun _ => rfl, fun _ => rfl, fun _ => rfl, rfl, rfl⟩

/-- What a trap leaves of the counters, and what it records. -/
theorem trapped_counters (cause tval : Word) (c : RV64Core) :
    (c.trapped cause tval).minstret = c.minstret ∧
      (c.trapped cause tval).csrMCycleNum = c.csrMCycleNum ∧
      (c.trapped cause tval).trapLog ≠ [] := by
  rcases trapped_cases cause tval c with ⟨-, h⟩ | ⟨-, h⟩ <;> rw [h] <;>
    exact ⟨rfl, rfl, List.append_ne_nil_of_right_ne_nil _ (List.cons_ne_nil _ _)⟩

end RV64Core

/-- The counters after an action that is not a return, up to the exit. -/
structure Counting (c c' : RV64Core) : Prop where
  minstret : c'.minstret = c.minstret
  needTrap : c'.needTrap = !c'.trapLog.isEmpty

theorem Counting.trapped {c : RV64Core} (cause tval : Word) : Counting c (c.trapped cause tval) := by
  obtain ⟨hminstret, -, hlog⟩ := RV64Core.trapped_counters cause tval c
  refine ⟨hminstret, ?_⟩
  rw [needTrap_trapped, List.isEmpty_eq_false_iff.mpr hlog]
  rfl

/-- An instruction that does not return from a trap leaves the count to the exit. -/
theorem Ends.counting {c c' : RV64Core} {a : Action} {flags : ExecFlags}
    (h : Ends c a flags c') (inst : BitVec 32) (hn : c.needTrap = false) (hlog : c.trapLog = [])
    (ha : a.returns = false) : Counting c (c'.atExit inst flags) := by
  have hkept {d : RV64Core} (hm : d.minstret = c.minstret) (hl : d.trapLog = c.trapLog)
      (hd : d.needTrap = c.needTrap) : Counting c d :=
    ⟨hm, by rw [hd, hl, hlog, hn]; rfl⟩
  cases h with
  | illegal => exact .trapped _ _
  | linkTraps | branchTraps | fault | ecall | ebreak =>
      rw [atExit_legal rfl]
      exact .trapped _ _
  | set rd value | value op rd value =>
      rw [atExit_legal rfl]
      exact hkept (by simp) (by simp) (by simp)
  | jump npc | branch npc | sfence =>
      rw [atExit_legal rfl]
      exact hkept rfl rfl rfl
  | link rd ret npc =>
      rw [atExit_legal rfl]
      exact hkept (c.setGPR_minstret rd ret) (c.setGPR_trapLog rd ret) (c.setGPR_needTrap rd ret)
  | csr a value old rd d hw =>
      rw [atExit_legal rfl]
      have hframe := RV64Core.csrWriteCase_frame hw
      have honly := RV64Core.csrWriteCase_only hw
      exact hkept (by simp [hframe.minstret]) (by simp [hframe.trapLog]) (by simp [honly.needTrap])
  | mret | sret => cases ha

theorem Ends.mcycle {c c' : RV64Core} {a : Action} {flags : ExecFlags}
    (h : Ends c a flags c') (inst : BitVec 32) (ha : a.writesMCycle = false) :
    (c'.atExit inst flags).csrMCycleNum = c.csrMCycleNum := by
  cases h with
  | illegal => exact (RV64Core.trapped_counters _ _ c).2.1
  | linkTraps | branchTraps | fault | ecall | ebreak =>
      rw [atExit_legal rfl]
      exact (RV64Core.trapped_counters _ _ c).2.1
  | set rd value | value op rd value =>
      rw [atExit_legal rfl]
      exact c.setGPR_csrMCycleNum rd value
  | link rd ret npc =>
      rw [atExit_legal rfl]
      exact c.setGPR_csrMCycleNum rd ret
  | sfence => rw [atExit_legal rfl]
  | jump | branch | mret | sret =>
      rw [atExit_legal rfl]
      rfl
  | csr a value old rd d hw =>
      rw [atExit_legal rfl, RV64Core.setGPR_csrMCycleNum]
      refine (RV64Core.csrWriteCase_only hw).mcycle ?_
      rintro rfl
      cases ha

/-! ## Every step of a run -/

section Steps

variable {β : Type} [MMIOBus β]

/-- The step from `m` executes a return from a trap that its mode permits. -/
def ReturnsFromTrap (m : Machine β) : Prop :=
  ∃ inst m₁, fetchInst.run m = .ok (some inst) m₁ ∧
    (inst = RiscV.mret ∧ m.begun.currentPrivMode = .mMode ∨
      inst = RiscV.sret ∧ m.begun.sretPermitted = true)

/-- The step from `m` executes a CSR instruction that writes `mcycle`. -/
def WritesMCycle (m : Machine β) : Prop :=
  ∃ inst m₁ v, fetchInst.run m = .ok (some inst) m₁ ∧
    csrWriteOf inst m₁.core = some (CSRAddr.mcycle.val, v)

/-- The step from `m` to `c'` is counted: `minstret` is up by one where it took no trap
and is as it was where it took one, and `mcycle` is up by one unless it is written. -/
structure Counted (m : Machine β) (c' : RV64Core) : Prop where
  minstret : c'.minstret = m.core.minstret + if c'.trapLog = [] then 1 else 0
  mcycle : ¬WritesMCycle m → c'.csrMCycleNum = m.core.csrMCycleNum + 1

/-- The step returns from a trap when its instruction does. -/
theorem returns_iff {m : Machine β} {inst : BitVec 32} {s : MMUSys β}
    (hf : fetchInst.run m = .ok (some inst) ⟨m.begun, s⟩) :
    ReturnsFromTrap m ↔ (action inst m.begun).returns = true := by
  constructor
  · rintro ⟨inst', m₁, hf', ⟨rfl, hmode⟩ | ⟨rfl, hperm⟩⟩ <;> cases hf.symm.trans hf'
    · rw [action_mret hmode]
      rfl
    · rw [action_sret hperm]
      rfl
  · intro h
    have hd := action_decodes inst m.begun
    generalize action inst m.begun = a at h hd
    cases hd with
    | mret hinst hmode => exact ⟨inst, _, hf, .inl ⟨hinst, hmode⟩⟩
    | sret hinst hperm => exact ⟨inst, _, hf, .inr ⟨hinst, hperm⟩⟩
    | _ => cases h

/-- The step writes `mcycle` when its instruction does. -/
theorem writesMCycle_of_action {m : Machine β} {inst : BitVec 32} {s : MMUSys β}
    (hf : fetchInst.run m = .ok (some inst) ⟨m.begun, s⟩)
    (h : (action inst m.begun).writesMCycle = true) : WritesMCycle m := by
  have hd := action_decodes inst m.begun
  generalize action inst m.begun = a at h hd
  cases hd with
  | csr a value old rd c hperm hwrite hc =>
      cases a <;> first | exact ⟨inst, _, value, hf, hwrite⟩ | cases h
  | _ => cases h

/-- A completed step is counted right unless it returns from a trap. -/
theorem counted_iff {m m' : Machine β} {fb : FuncReturnFeedback}
    (h : stepCoreAPI.run m = .ok fb m') : Counted m m'.core ↔ ¬ReturnsFromTrap m := by
  rcases stepCoreAPI_actions h with ⟨cause, tval, hcore, s, hf⟩ | ⟨inst, s, flags, c, hf, hends, hcore⟩
  · obtain ⟨hminstret, hmcycle, hlog⟩ := RV64Core.trapped_counters cause tval m.begun
    have hcounted : Counted m m'.core := by
      refine ⟨?_, fun _ => ?_⟩ <;> rw [hcore]
      · simp only [RV64Core.retire, needTrap_trapped, if_true, if_neg hlog, hminstret]
        exact (BitVec.add_zero _).symm
      · exact hmcycle
    refine iff_of_true hcounted ?_
    rintro ⟨inst, m₁, hf', -⟩
    cases hf.symm.trans hf'
  rw [returns_iff hf]
  cases hret : (action inst m.begun).returns with
  | false =>
      refine iff_of_true ?_ Bool.false_ne_true
      have hcounting := hends.counting inst (needTrap_begun m) rfl hret
      refine ⟨?_, fun hno => ?_⟩ <;> rw [hcore]
      · simp only [RV64Core.retire, hcounting.needTrap, hcounting.minstret]
        cases (c.atExit inst flags).trapLog with
        | nil => rfl
        | cons p l => exact (BitVec.add_zero _).symm
      · refine hends.mcycle inst ?_
        by_contra hw
        exact hno (writesMCycle_of_action hf (by simpa using hw))
  | true =>
      refine iff_of_false (fun hcounted => ?_) (not_not.mpr rfl)
      have hsame : m'.core.minstret = m.core.minstret ∧ m'.core.trapLog = [] := by
        rw [hcore]
        generalize action inst m.begun = a at hends hret
        cases hends with
        | mret | sret => exact ⟨rfl, rfl⟩
        | _ => cases hret
      have hup := hcounted.minstret
      rw [hsame.1, hsame.2, if_pos rfl] at hup
      bv_omega

/-- Over every run, the steps that are counted right are those that do not return from
a trap. -/
theorem retirement_counted_iff {c₀ c : RV64Core} {steps : List (Machine β × RV64Core)}
    (h : CoreRun c₀ steps c) :
    ∀ p ∈ steps, Counted p.1 p.2 ↔ ¬ReturnsFromTrap p.1 :=
  h.each (P := fun m c' => Counted m c' ↔ ¬ReturnsFromTrap m) fun _ _ _ => counted_iff

/-- Over a run without such a step, `minstret` is up by the number of steps that took no
trap. -/
theorem retired_count {c₀ c : RV64Core} {steps : List (Machine β × RV64Core)}
    (h : CoreRun c₀ steps c) (hno : ∀ p ∈ steps, ¬ReturnsFromTrap p.1) :
    c.minstret = c₀.minstret + BitVec.ofNat 64 (steps.countP fun p => p.2.trapLog.isEmpty) := by
  induction h with
  | start => exact (BitVec.add_zero _).symm
  | lines h lines ih => exact ih hno
  | @step steps m m' fb h hstep ih =>
      have hold := ih fun p hp => hno p (List.mem_append_left _ hp)
      have hnew := (counted_iff hstep).mpr
        (hno (m, m'.core) (List.mem_append_right _ (List.mem_singleton.mpr rfl)))
      rw [hnew.minstret, hold, List.countP_append, List.countP_singleton, BitVec.ofNat_add,
        BitVec.add_assoc]
      cases m'.core.trapLog <;> rfl

end Steps

/-- A program that returns is a run of the core. -/
theorem ReturnsFor.coreRun {bytes : List Byte} {n : Nat} (h : ReturnsFor bytes n) :
    CoreRun (runFrom bytes 0).core ((List.range n).map fun i =>
      (runFrom bytes i, (Run.final (stepCoreAPI.run (runFrom bytes i))).core))
      (runFrom bytes n).core := by
  induction n with
  | zero => exact .start
  | succ n ih =>
      obtain ⟨fb, hr⟩ := h.run (Nat.lt_succ_self n)
      have hbefore := ih fun i hi => h i (Nat.lt_succ_of_lt hi)
      rw [List.range_succ, List.map_append]
      exact (hbefore.step hr).lines default

/-- A run with a return from M-mode to U-mode and a trap back. -/
theorem retirement_counted_iff_visitUser :
    ∃ steps : List (Machine (MEmuMMIOBus MMIOMem) × RV64Core),
      CoreRun (runFrom visitUser 0).core steps (runFrom visitUser 7).core ∧ steps.length = 7 ∧
        ∀ p ∈ steps, (Counted p.1 p.2 ↔ ¬ReturnsFromTrap p.1) :=
  ⟨_, visitUser_returns.coreRun, rfl, retirement_counted_iff visitUser_returns.coreRun⟩

/-- A core in M-mode on `mret`. -/
def onMret : Machine (MEmuMMIOBus MMIOMem) :=
  .ofBytes (default : RV64Core).reset [0x73, 0x00, 0x20, 0x30]

/-- `mret` completes without a trap and leaves `minstret` as it was. -/
theorem mret_uncounted :
    ¬∀ (c₀ c : RV64Core) (steps : List (Machine (MEmuMMIOBus MMIOMem) × RV64Core)),
      CoreRun c₀ steps c → ∀ p ∈ steps, Counted p.1 p.2 := by
  intro h
  have hstep : stepCoreAPI.run onMret = .ok .ok (Run.final (stepCoreAPI.run onMret)) := by rfl
  have hc := h _ _ _ (CoreRun.start.step hstep) (onMret, _) (List.mem_singleton.mpr rfl)
  have hup := hc.minstret
  revert hup
  decide +kernel

end MEmu
