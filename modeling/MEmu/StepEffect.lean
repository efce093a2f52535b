import MEmu.Effect

/-!
# What a step can do

A step is a fetch, an execute part and an exit.  `StepEffect m m'` lists how a
step from `m` completes in `m'`, and every invariant of the core is a case
analysis on it and on `Retires`.  `StepMem` does the same for the memory, however
the step ends.
-/

namespace MEmu

open Machine (onCore onMem)
open Run (Sat)

/-! ## The part before the decode -/

namespace RV64Core

/-- The interrupt that `preExec` raises, decided after `beginStep`. -/
def intTaken (c : RV64Core) : Option IntType :=
  let int_bits := c.csrIntPending &&& c.csrIntEnable
  let mode := c.currentPrivMode
  if bitsToIntType int_bits = .noInt then none
  else if mode = .mMode then
    let m_mode_int_bits := int_bits &&& ~~~c.csrMIntDelegation
    if MStatus.mie c.status = true ∧ m_mode_int_bits ≠ 0 then some (bitsToIntType m_mode_int_bits)
    else none
  else if int_bits &&& c.csrMIntDelegation ≠ 0 then
    if mode.val < PrivMode.sMode.val ∨ MStatus.sie c.status = true then
      some (bitsToIntType int_bits)
    else none
  else some (bitsToIntType int_bits)

end RV64Core

/-- The check before a step, by the interrupt it selects. -/
theorem run_preExec (c : RV64Core) :
    preExec.run c = match c.beginStep.intTaken with
      | none => .ok () c.beginStep
      | some int_type => (raiseTrap (Cause.int int_type) 0).run c.beginStep := by
  simp only [preExec, EStateM.run_bind, EStateM.run_modify, EStateM.run_get, RV64Core.intTaken]
  generalize c.beginStep = c
  by_cases hnone : bitsToIntType (c.csrIntPending &&& c.csrIntEnable) = .noInt
  · simp only [if_pos hnone]
    rfl
  simp only [if_neg hnone]
  by_cases hmode : c.currentPrivMode = .mMode
  · simp only [if_pos hmode]
    split <;> rfl
  have hlt : c.currentPrivMode.val < PrivMode.mMode.val := by
    cases hm : c.currentPrivMode <;> first | decide | exact absurd hm hmode
  simp only [if_neg hmode, if_pos hlt]
  split
  · by_cases hs : c.currentPrivMode.val < PrivMode.sMode.val
    · simp only [hs, true_or, if_true]
    · simp only [hs, false_or, if_false]
      split <;> rfl
  · rfl

/-- The check before a step takes an interrupt or does not, or it aborts elsewhere than in a trap.
-/
theorem preExec_cases (c : RV64Core) :
    preExec.run c = .ok () c.beginStep ∨
      (∃ cause, preExec.run c = .ok () (c.beginStep.trapped cause 0)) ∨
      ∃ e c', preExec.run c = .error e c' ∧ e ≠ .needTrap := by
  rw [run_preExec]
  cases c.beginStep.intTaken with
  | none => exact .inl rfl
  | some int_type =>
      refine .inr ((raiseTrap_cases rfl (Cause.int int_type) 0).imp_left fun h => ?_)
      exact ⟨_, h⟩

namespace Machine

/-- The core after `beginStep`, with its log emptied. -/
def begun {β : Type} (m : Machine β) : RV64Core := m.clearLogs.core.beginStep

end Machine

theorem needTrap_begun {β : Type} (m : Machine β) : m.begun.needTrap = false := rfl

section Fetch

variable {β : Type} [MMIOBus β]

/-- The fetch of a step. -/
def Machine.fetch (m : Machine β) : EStateM.Result Abort (MMUSys β) (VAddrRWFeedback × List Byte) :=
  (MMUSys.vaddrInstFetch m.begun.mmuEnv m.begun.currentProgramCounter 4 (Bytes.ofWord 4 0)).run
    m.clearLogs.mem

/-- The memory after the fetch of a step, whether it was reached or not. -/
def Fetched (m : Machine β) (s : MMUSys β) : Prop :=
  s = m.clearLogs.mem ∨ ∃ r, m.fetch = .ok r s

/-- A fetch that succeeds is quiet. -/
theorem Fetched.quiet {m : Machine β} {s : MMUSys β} (h : Fetched m s) :
    Quiet m.clearLogs.mem s := by
  rcases h with rfl | ⟨r, hr⟩
  · exact .refl _
  · exact (MMUSys.vaddrInstFetch_quiet _ _ _ _ _).ok hr

/-- The ends of a step up to the decode. -/
inductive FetchEffect (m : Machine β) :
    EStateM.Result Abort (Machine β) (Option (BitVec 32)) → Prop where
  | ready (inst : BitVec 32) (s : MMUSys β) (hs : Fetched m s) :
      FetchEffect m (.ok (some inst) { core := m.begun, mem := s })
  | traps (cause tval : Word) (s : MMUSys β) (hs : Fetched m s) :
      FetchEffect m (.ok none { core := m.begun.trapped cause tval, mem := s })
  | aborts (e : Abort) (c : RV64Core) (s : MMUSys β) (hs : Fetched m s) (he : e ≠ .needTrap) :
      FetchEffect m (.error e { core := c, mem := s })
  | memAborts (e : Abort) (s : MMUSys β) (h : m.fetch = .error e s) :
      FetchEffect m (.error e { core := m.begun, mem := s })

/-- What the fetch of a step does. -/
theorem fetchInst_effect (m : Machine β) : FetchEffect m (fetchInst.run m) := by
  simp only [fetchInst, EStateM.run_bind, EStateM.run_modify, EStateM.run_get]
  rcases preExec_cases m.clearLogs.core with hr | ⟨cause, hr⟩ | ⟨e, c, hr, he⟩
  · simp only [run_onCore_ok hr, ← Machine.begun.eq_1, needTrap_begun, Bool.false_eq_true,
      if_false]
    split
    · have hr := run_raiseException (m := ⟨m.begun, m.clearLogs.mem⟩) (needTrap_begun m)
        trapCause_instrMisalign m.begun.currentProgramCounter
      simp only [EStateM.run_bind, hr]
      exact .traps _ _ _ (.inl rfl)
    · simp only [EStateM.run_bind, Machine.run_onMem]
      cases hf : (MMUSys.vaddrInstFetch m.begun.mmuEnv m.begun.currentProgramCounter 4
          (Bytes.ofWord 4 0)).run m.clearLogs.mem with
      | error e s => exact .memAborts e s hf
      | ok r s =>
          have hs : Fetched m s := .inr ⟨r, hf⟩
          dsimp only
          split
          · simp only [EStateM.run_bind, run_cassert]
            by_cases hc : fetchCause r.1 ≠ 0
            · simp only [if_pos hc]
              rcases raiseTrap_cases (needTrap_begun m) (Cause.mk (fetchCause r.1) false)
                m.begun.currentProgramCounter with hr | ⟨e, c, hr, he⟩
              · simp only [run_onCore_ok (m := ⟨m.begun, s⟩) hr]
                exact .traps _ _ s hs
              · simp only [run_onCore_error (m := ⟨m.begun, s⟩) hr]
                exact .aborts e c s hs he
            · simp only [if_neg hc]
              exact .aborts _ _ s hs (by decide)
          · exact .ready _ s hs
  · simp only [run_onCore_ok hr]
    have hn : (m.clearLogs.core.beginStep.trapped cause 0).needTrap = true := by
      unfold RV64Core.trapped RV64Core.takeTrap
      split <;> rfl
    simp only [hn, if_true]
    exact .traps cause 0 _ (.inl rfl)
  · simp only [run_onCore_error hr]
    exact .aborts e c _ (.inl rfl) he

end Fetch

/-! ## The exit -/

theorem needTrap_trapped (cause tval : Word) (c : RV64Core) :
    (c.trapped cause tval).needTrap = true := by
  unfold RV64Core.trapped RV64Core.takeTrap
  split <;> rfl

theorem trapLog_trapped (cause tval : Word) (c : RV64Core) :
    (c.trapped cause tval).trapLog = c.trapLog ++ [(cause, tval)] := by
  unfold RV64Core.trapped RV64Core.takeTrap
  split <;> rfl

/-- The core at the common exit: an illegal instruction traps there. -/
def RV64Core.atExit (inst : BitVec 32) (flags : ExecFlags) (c : RV64Core) : RV64Core :=
  if flags.is_instr_illegal then c.trapped (Cause.exception .illegalInstr) (inst.setWidth 64) else c

/-- The common exit: the trap of an illegal instruction, the retirement, and the assertion on the
status. -/
theorem run_stepExit {c : RV64Core} (inst : BitVec 32) (comp : Bool) (flags : ExecFlags)
    (h : flags.is_instr_illegal = true → c.needTrap = false) :
    (stepExit inst comp flags).run c
      = if RV64Core.statusBlank ((c.atExit inst flags).retire comp flags).status = true then
          .ok .ok ((c.atExit inst flags).retire comp flags)
        else .error .statusBlank ((c.atExit inst flags).retire comp flags) := by
  have hc : TrapCause (Cause.exception .illegalInstr) := by decide
  unfold stepExit RV64Core.atExit
  by_cases hill : flags.is_instr_illegal = true
  · simp only [if_pos hill, EStateM.run_bind, run_raiseTrap_ok (h hill) hc, EStateM.run_modify,
      EStateM.run_get, run_cassert]
    by_cases hb : RV64Core.statusBlank ((c.trapped (Cause.exception .illegalInstr)
        (inst.setWidth 64)).retire comp flags).status = true
    · simp only [if_pos hb]
      rfl
    · simp only [if_neg hb]
  · simp only [if_neg hill, EStateM.run_bind, EStateM.run_modify, EStateM.run_get, run_cassert]
    by_cases hb : RV64Core.statusBlank (c.retire comp flags).status = true
    · simp only [if_pos hb]
      rfl
    · simp only [if_neg hb]

/-- The end of a step from the end of its execute part. -/
theorem run_exit {β : Type} {m : Machine β} (inst : BitVec 32) (comp : Bool) (flags : ExecFlags)
    (h : flags.is_instr_illegal = true → m.core.needTrap = false) :
    (onCore (stepExit inst comp flags)).run m
        = .ok .ok { m with core := (m.core.atExit inst flags).retire comp flags } ∨
      (onCore (stepExit inst comp flags)).run m
        = .error .statusBlank { m with core := (m.core.atExit inst flags).retire comp flags } := by
  have hr := run_stepExit inst comp flags h
  split at hr
  · exact .inl (run_onCore_ok hr)
  · exact .inr (run_onCore_error hr)

theorem atExit_legal {inst : BitVec 32} {flags : ExecFlags} {c : RV64Core}
    (h : flags.is_instr_illegal = false) : c.atExit inst flags = c := by
  rw [RV64Core.atExit, h]
  rfl

/-! ## The step -/

section Step

variable {β : Type} [MMIOBus β]

/-- The data access of a step, with the register that its value goes to. -/
def Machine.memOp (m : Machine β) : Option (MemOp × BitVec 5) :=
  match fetchInst.run m with
  | .ok (some inst) _ => memOpOf inst m.begun
  | _ => none

/-- The memory operation of a step is that of the instruction it has fetched. -/
theorem Machine.memOp_of_fetch {m m₁ : Machine β} {inst : BitVec 32}
    (h : fetchInst.run m = .ok (some inst) m₁) : m.memOp = memOpOf inst m.begun := by
  rw [memOp, h]

/-- The memory after the execute part: untouched, after the access in `ops`, or
flushed. -/
inductive Executed (ops : Option (MemOp × BitVec 5)) (env : MMUEnv) (s : MMUSys β) :
    MMUSys β → Prop where
  | idle : Executed ops env s s
  | access (op : MemOp) (rd : BitVec 5) (hop : ops = some (op, rd)) :
      Executed ops env s (Run.final ((op.perform env).run s))
  | flush (vaddr asid : Word) :
      Executed ops env s { s with mmu := s.mmu.flushTLBSfenceVma vaddr asid }

section Executed

variable {ops : Option (MemOp × BitVec 5)} {env : MMUEnv} {s s' : MMUSys β}

/-- The memory operation was run. -/
theorem Executed.of_run {op : MemOp} {rd : BitVec 5} (hop : ops = some (op, rd))
    (h : Run.final ((op.perform env).run s) = s') : Executed ops env s s' :=
  h ▸ .access op rd hop

/-- An access that fails was made, where there is one. -/
theorem FailedAccess.executed (h : FailedAccess ops env s s') : Executed ops env s s' := by
  rcases h with rfl | ⟨op, rd, cause, hop, hr⟩
  · exact .idle
  · exact .of_run hop (by rw [hr]; rfl)

end Executed

/-- An instruction that retires is legal. -/
theorem Retires.legal {inst : BitVec 32} {m m' : Machine β} {flags : ExecFlags}
    (h : Retires inst m flags m') : flags.is_instr_illegal = false := by
  cases h <;> rfl

/-- An instruction that retires has made its access. -/
theorem Retires.executed {inst : BitVec 32} {m m' : Machine β} {flags : ExecFlags}
    (h : Retires inst m flags m') :
    Executed (memOpOf inst m.core) m.core.mmuEnv m.mem m'.mem := by
  cases h with
  | mem op rd value s hr hop => exact .of_run hop (by rw [hr]; rfl)
  | sfence vaddr asid => exact .flush vaddr asid
  | _ => exact .idle

/-- The ends of a step: it completes by a trap or by retiring an instruction, or
the process ends. -/
inductive StepEffect (m : Machine β) :
    EStateM.Result Abort (Machine β) FuncReturnFeedback → Prop where
  | traps (cause tval : Word) (comp : Bool) (flags : ExecFlags) (s s' : MMUSys β)
      (hs : Fetched m s) (hs' : FailedAccess m.memOp m.begun.mmuEnv s s') :
      StepEffect m
        (.ok .ok { core := (m.begun.trapped cause tval).retire comp flags, mem := s' })
  | retires (inst : BitVec 32) (flags : ExecFlags) (s : MMUSys β) (m' : Machine β)
      (hfetch : fetchInst.run m = .ok (some inst) { core := m.begun, mem := s })
      (hs : Fetched m s) (h : Retires inst { core := m.begun, mem := s } flags m') :
      StepEffect m
        (.ok .ok { m' with core := m'.core.retire (isCompressedInst inst) flags })
  | aborts (e : Abort) (c : RV64Core) (s s' : MMUSys β) (hs : Fetched m s)
      (hs' : Executed m.memOp m.begun.mmuEnv s s') (he : e ≠ .needTrap) :
      StepEffect m (.error e { core := c, mem := s' })
  | fetchAborts (e : Abort) (s : MMUSys β) (h : m.fetch = .error e s) :
      StepEffect m (.error e { core := m.begun, mem := s })
  | memAborts (op : MemOp) (rd : BitVec 5) (e : Abort) (s s' : MMUSys β) (hs : Fetched m s)
      (hop : m.memOp = some (op, rd))
      (h : (op.perform m.begun.mmuEnv).run s = .error e s') :
      StepEffect m (.error e { core := m.begun, mem := s' })

/-- The exit keeps the end of a trap. -/
theorem exit_traps {m : Machine β} {cause tval : Word} {s s' : MMUSys β} (hs : Fetched m s)
    (hs' : FailedAccess m.memOp m.begun.mmuEnv s s') (inst : BitVec 32) (comp : Bool) (flags : ExecFlags)
    (h : flags.is_instr_illegal = false) :
    StepEffect m ((onCore (stepExit inst comp flags)).run
      { core := m.begun.trapped cause tval, mem := s' }) := by
  have hr := run_exit (m := { core := m.begun.trapped cause tval, mem := s' }) inst comp flags
    fun hill => absurd (h ▸ hill) Bool.false_ne_true
  rw [atExit_legal h] at hr
  rcases hr with hr | hr <;> rw [hr]
  · exact .traps cause tval comp flags s s' hs hs'
  · exact .aborts _ _ s s' hs hs'.executed (by decide)

/-- What the execution of a fetched instruction does. -/
theorem execAndExit_effect {m : Machine β} {inst : BitVec 32} {s : MMUSys β}
    (hfetch : fetchInst.run m = .ok (some inst) { core := m.begun, mem := s })
    (hs : Fetched m s) :
    StepEffect m ((execAndExit inst).run { core := m.begun, mem := s }) := by
  have he := execute_effect (m := ⟨m.begun, s⟩) inst (needTrap_begun m)
  have hops := Machine.memOp_of_fetch hfetch
  rw [execAndExit, EStateM.run_bind]
  generalize (execute inst).run (⟨m.begun, s⟩ : Machine β) = r at he ⊢
  cases he with
  | @retires flags m' h =>
      have hr := run_exit (m := m') inst (isCompressedInst inst) flags
        fun hill => absurd (h.legal ▸ hill) Bool.false_ne_true
      rw [atExit_legal h.legal] at hr
      rcases hr with hr | hr <;> simp only [hr]
      · exact .retires inst flags s m' hfetch hs h
      · exact .aborts _ _ s m'.mem hs (hops ▸ h.executed) (by decide)
  | illegal =>
      have hr := run_exit (m := ⟨m.begun, s⟩) inst (isCompressedInst inst) .illegal
        fun _ => needTrap_begun m
      rcases hr with hr | hr <;> simp only [hr]
      · exact .traps _ _ _ _ s s hs (.inl rfl)
      · exact .aborts _ _ s s hs .idle (by decide)
  | traps cause tval flags s' hflags hs' => exact exit_traps hs (hops ▸ hs') inst _ flags hflags
  | csrAborts value hwrite hmtvec => exact .aborts _ _ s s hs .idle (by decide)
  | memAborts op rd e s' hop h => exact .memAborts op rd e s s' hs (hops ▸ hop) h

/-- What a step does. -/
theorem stepCoreAPI_effect (m : Machine β) : StepEffect m (stepCoreAPI.run m) := by
  have hf := fetchInst_effect m
  rw [stepCoreAPI, EStateM.run_bind]
  generalize hr : fetchInst.run m = r at hf ⊢
  cases hf with
  | ready inst s hs => exact execAndExit_effect hr hs
  | traps cause tval s hs => exact exit_traps hs (.inl rfl) 0 false .plain rfl
  | aborts e c s hs he => exact .aborts e c s s hs .idle he
  | memAborts e s h => exact .fetchAborts e s h

/-- A completed step traps or retires. -/
theorem StepEffect.cases_ok {m m' : Machine β} {fb : FuncReturnFeedback}
    (h : StepEffect m (.ok fb m')) :
    (∃ cause tval comp flags s s', Fetched m s ∧ FailedAccess m.memOp m.begun.mmuEnv s s' ∧
      m' = { core := (m.begun.trapped cause tval).retire comp flags, mem := s' }) ∨
    ∃ inst flags s m₁, fetchInst.run m = .ok (some inst) { core := m.begun, mem := s } ∧
      Fetched m s ∧ Retires inst { core := m.begun, mem := s } flags m₁ ∧
      m' = { m₁ with core := m₁.core.retire (isCompressedInst inst) flags } := by
  cases h with
  | traps cause tval comp flags s s' hs hs' =>
      exact .inl ⟨cause, tval, comp, flags, s, s', hs, hs', rfl⟩
  | retires inst flags s m₁ hfetch hs h => exact .inr ⟨inst, flags, s, m₁, hfetch, hs, h, rfl⟩

/-- The memory a step ends with, however it ends. -/
theorem stepCoreAPI_mem (m : Machine β) :
    (∃ e, m.fetch = .error e (Run.final (stepCoreAPI.run m)).mem) ∨
      ∃ s, Fetched m s ∧ Executed m.memOp m.begun.mmuEnv s (Run.final (stepCoreAPI.run m)).mem := by
  have h := stepCoreAPI_effect m
  generalize stepCoreAPI.run m = r at h ⊢
  cases h with
  | traps cause tval comp flags s s' hs hs' => exact .inr ⟨s, hs, hs'.executed⟩
  | retires inst flags s m' hfetch hs h =>
      rw [Machine.memOp_of_fetch hfetch]
      exact .inr ⟨s, hs, h.executed⟩
  | aborts e c s s' hs hs' he => exact .inr ⟨s, hs, hs'⟩
  | fetchAborts e s h => exact .inl ⟨e, h⟩
  | memAborts op rd e s s' hs hop h => exact .inr ⟨s, hs, .of_run hop (by rw [h]; rfl)⟩

/-! ## The action of a step -/

/-- Only the illegal action is marked so, and it leaves the core as it is. -/
theorem Ends.illegal_iff {c c' : RV64Core} {a : Action} {flags : ExecFlags}
    (h : Ends c a flags c') : flags.is_instr_illegal = true ↔ a = .illegal := by
  cases h <;> simp [ExecFlags.illegal, ExecFlags.plain, ExecFlags.newPC]

/-- An illegal instruction has not asked for a trap. -/
theorem Ends.needTrap {c c' : RV64Core} {a : Action} {flags : ExecFlags} (h : Ends c a flags c')
    (hn : c.needTrap = false) (hill : flags.is_instr_illegal = true) : c'.needTrap = false := by
  obtain rfl := h.illegal_iff.mp hill
  cases h
  exact hn

/-- The run of a step from its instruction on. -/
theorem run_stepCoreAPI_of_action {m : Machine β} {s : MMUSys β} {inst : BitVec 32}
    (hf : fetchInst.run m = .ok (some inst) ⟨m.begun, s⟩) :
    stepCoreAPI.run m = match ((action inst m.begun).exec).run ⟨m.begun, s⟩ with
      | .ok flags m₁ => (onCore (stepExit inst (isCompressedInst inst) flags)).run m₁
      | .error e m₁ => .error e m₁ := by
  rw [stepCoreAPI, EStateM.run_bind, hf]
  dsimp only
  rw [execAndExit, EStateM.run_bind, run_execute]
  cases ((action inst m.begun).exec).run ⟨m.begun, s⟩ <;> rfl

omit [MMIOBus β] in
/-- The state after the exit, whether its assertion holds or not. -/
theorem final_stepExit {m : Machine β} (inst : BitVec 32) (comp : Bool) (flags : ExecFlags)
    (h : flags.is_instr_illegal = true → m.core.needTrap = false) :
    Run.final ((onCore (stepExit inst comp flags)).run m)
      = { m with core := (m.core.atExit inst flags).retire comp flags } := by
  rcases run_exit inst comp flags h with hr | hr <;> rw [hr] <;> rfl

/-- The state after a step whose action returns. -/
theorem final_of_action {m m₁ : Machine β} {s : MMUSys β} {inst : BitVec 32} {flags : ExecFlags}
    (hf : fetchInst.run m = .ok (some inst) ⟨m.begun, s⟩)
    (ha : ((action inst m.begun).exec).run ⟨m.begun, s⟩ = .ok flags m₁) :
    Ends m.begun (action inst m.begun) flags m₁.core ∧
      Run.final (stepCoreAPI.run m)
        = { m₁ with core := (m₁.core.atExit inst flags).retire (isCompressedInst inst) flags } := by
  have hends := (action_decodes inst m.begun).ends (m := ⟨m.begun, s⟩) (needTrap_begun m) ha
  refine ⟨hends, ?_⟩
  rw [run_stepCoreAPI_of_action hf, ha]
  exact final_stepExit inst _ flags (hends.needTrap (needTrap_begun m))

/-- A completed step took a trap before its decode, or did what its action asks for. -/
theorem stepCoreAPI_actions {m m' : Machine β} {fb : FuncReturnFeedback}
    (h : stepCoreAPI.run m = .ok fb m') :
    (∃ cause tval, m'.core = (m.begun.trapped cause tval).retire false .plain ∧
        ∃ s, fetchInst.run m = .ok none ⟨m.begun.trapped cause tval, s⟩) ∨
      ∃ inst s flags c, fetchInst.run m = .ok (some inst) ⟨m.begun, s⟩ ∧
        Ends m.begun (action inst m.begun) flags c ∧
        m'.core = (c.atExit inst flags).retire (isCompressedInst inst) flags := by
  have hm' : m' = Run.final (stepCoreAPI.run m) := by rw [h]; rfl
  have hf := fetchInst_effect m
  generalize hr : fetchInst.run m = r at hf
  cases hf with
  | ready inst s hs =>
      refine .inr ⟨inst, s, ?_⟩
      cases ha : ((action inst m.begun).exec).run ⟨m.begun, s⟩ with
      | error e m₁ =>
          rw [run_stepCoreAPI_of_action hr, ha] at h
          cases h
      | ok flags m₁ =>
          obtain ⟨hends, hfinal⟩ := final_of_action hr ha
          exact ⟨flags, m₁.core, rfl, hends, by rw [hm', hfinal]⟩
  | traps cause tval s hs =>
      refine .inl ⟨cause, tval, ?_, s, rfl⟩
      rw [hm', stepCoreAPI, EStateM.run_bind, hr]
      exact congrArg Machine.core (final_stepExit 0 false .plain nofun)
  | aborts e c s hs he =>
      rw [stepCoreAPI, EStateM.run_bind, hr] at h
      cases h
  | memAborts e s hs =>
      rw [stepCoreAPI, EStateM.run_bind, hr] at h
      cases h

/-! ## The data access of a step -/

/-- An instruction with a memory operation is its access. -/
theorem run_execute_of_memOp {m : Machine β} {inst : BitVec 32} {op : MemOp} {rd : BitVec 5}
    (h : memOpOf inst m.core = some (op, rd)) :
    (execute inst).run m = (op.exec rd).run m := execute_accesses h

namespace MemOp

/-- The core after an access, by what the access ended in. -/
def endCore (op : MemOp) (rd : BitVec 5) (c : RV64Core) :
    Except ExecFeedbackCode Word → RV64Core
  | .ok value => c.setGPR rd value
  | .error cause => c.trapped (Cause.exception cause) op.addr

/-- The access of an instruction, and what the core does with its result. -/
theorem run_exec (op : MemOp) (rd : BitVec 5) {m : Machine β} (h : m.core.needTrap = false) :
    (op.exec rd).run m = match (op.perform m.core.mmuEnv).run m.mem with
      | .ok r s => .ok .plain { core := op.endCore rd m.core r, mem := s }
      | .error e s => .error e { m with mem := s } := by
  simp only [exec, EStateM.run_bind, Machine.run_onMem]
  cases hr : (op.perform m.core.mmuEnv).run m.mem with
  | error e s => rfl
  | ok r s =>
      cases r with
      | ok value => rfl
      | error cause =>
          have hc := (perform_resultOk m.core.mmuEnv op m.mem).ok hr cause rfl
          simp only [EStateM.run_bind]
          rw [run_raiseException (m := { m with mem := s }) h hc.trapCause]
          rfl

end MemOp

/-- The data access of a step and what it ends in. -/
def Machine.access (m : Machine β) : Option (MemOp × Except ExecFeedbackCode Word) :=
  match fetchInst.run m with
  | .ok (some inst) m₁ =>
      match memOpOf inst m₁.core with
      | some (op, _) =>
          match (op.perform m₁.core.mmuEnv).run m₁.mem with
          | .ok r _ => some (op, r)
          | .error _ _ => none
      | none => none
  | _ => none

/-- A completed step with a data access ends where the access does. -/
structure StepAccess (m m' : Machine β) (op : MemOp) (r : Except ExecFeedbackCode Word) : Prop where
  fetched : ∃ s, Fetched m s ∧ (op.perform m.begun.mmuEnv).run s = .ok r m'.mem
  core : ∃ rd comp, m'.core = (op.endCore rd m.begun r).retire comp .plain

/-- The instruction of a step, and the memory it is executed on. -/
theorem fetchInst_ok {m m₁ : Machine β} {inst : BitVec 32}
    (h : fetchInst.run m = .ok (some inst) m₁) :
    ∃ s, Fetched m s ∧ m₁ = { core := m.begun, mem := s } := by
  have hf := fetchInst_effect m
  rw [h] at hf
  cases hf with
  | ready inst s hs => exact ⟨s, hs, rfl⟩

/-- The run of a step whose instruction makes a data access. -/
theorem run_stepCoreAPI_of_memOp {m : Machine β} {s : MMUSys β} {inst : BitVec 32} {op : MemOp}
    {rd : BitVec 5} (hf : fetchInst.run m = .ok (some inst) ⟨m.begun, s⟩)
    (hop : memOpOf inst m.begun = some (op, rd)) :
    stepCoreAPI.run m = match (op.perform m.begun.mmuEnv).run s with
      | .ok r s' =>
          (onCore (stepExit inst (isCompressedInst inst) .plain)).run
            ⟨op.endCore rd m.begun r, s'⟩
      | .error e s' => .error e ⟨m.begun, s'⟩ := by
  have hexec := run_execute_of_memOp (m := ⟨m.begun, s⟩) hop
  rw [stepCoreAPI, EStateM.run_bind, hf]
  dsimp only
  rw [execAndExit, EStateM.run_bind, hexec, op.run_exec rd (m := ⟨m.begun, s⟩) (needTrap_begun m)]
  cases (op.perform m.begun.mmuEnv).run s <;> rfl

/-- The state after a step whose instruction makes a data access. -/
theorem final_of_memOp {m : Machine β} {s : MMUSys β} {inst : BitVec 32} {op : MemOp}
    {rd : BitVec 5} (hf : fetchInst.run m = .ok (some inst) ⟨m.begun, s⟩)
    (hop : memOpOf inst m.begun = some (op, rd)) :
    Run.final (stepCoreAPI.run m) = match (op.perform m.begun.mmuEnv).run s with
      | .ok r s' => ⟨(op.endCore rd m.begun r).retire (isCompressedInst inst) .plain, s'⟩
      | .error _ s' => ⟨m.begun, s'⟩ := by
  rw [run_stepCoreAPI_of_memOp hf hop]
  cases (op.perform m.begun.mmuEnv).run s with
  | error e s' => rfl
  | ok r s' => exact final_stepExit inst _ .plain nofun

/-- The end of a completed step whose instruction makes a data access. -/
theorem stepCoreAPI_of_memOp {m m' : Machine β} {fb : FuncReturnFeedback} {s : MMUSys β}
    {inst : BitVec 32} {op : MemOp} {rd : BitVec 5}
    (hf : fetchInst.run m = .ok (some inst) ⟨m.begun, s⟩)
    (hop : memOpOf inst m.begun = some (op, rd)) (h : stepCoreAPI.run m = .ok fb m') :
    ∃ r, (op.perform m.begun.mmuEnv).run s = .ok r m'.mem ∧
      m'.core = (op.endCore rd m.begun r).retire (isCompressedInst inst) .plain := by
  rw [run_stepCoreAPI_of_memOp hf hop] at h
  cases hr : (op.perform m.begun.mmuEnv).run s with
  | error e s' =>
      rw [hr] at h
      cases h
  | ok r s' =>
      rw [hr] at h
      dsimp only at h
      have hx := run_exit (m := ⟨op.endCore rd m.begun r, s'⟩) inst (isCompressedInst inst)
        .plain nofun
      rw [atExit_legal rfl] at hx
      rcases hx with hx | hx <;> rw [hx] at h <;> cases h
      exact ⟨r, rfl, rfl⟩

/-- A completed step makes the access that `Machine.access` names, or makes none. -/
theorem stepCoreAPI_access {m m' : Machine β} {fb : FuncReturnFeedback}
    (h : stepCoreAPI.run m = .ok fb m') :
    (m.access = none ∧ m.memOp = none) ∨
      ∃ op r, m.access = some (op, r) ∧ StepAccess m m' op r := by
  cases hmem : m.memOp with
  | none =>
      refine .inl ⟨?_, rfl⟩
      unfold Machine.memOp at hmem
      unfold Machine.access
      split
      · rename_i inst m₁ hf
        obtain ⟨s, -, rfl⟩ := fetchInst_ok hf
        simp only [hf] at hmem
        simp only [hmem]
      · rfl
  | some p =>
      obtain ⟨op, rd⟩ := p
      refine .inr ?_
      unfold Machine.memOp at hmem
      split at hmem
      · rename_i inst m₁ hf
        obtain ⟨s, hs, rfl⟩ := fetchInst_ok hf
        obtain ⟨r, hr, hcore⟩ := stepCoreAPI_of_memOp hf hmem h
        refine ⟨op, r, ?_, ⟨s, hs, hr⟩, rd, _, hcore⟩
        simp only [Machine.access, hf, hmem, hr]
      · cases hmem

end Step

end MEmu
