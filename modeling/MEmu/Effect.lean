import MEmu.Access
import MEmu.Action

/-!
# What an instruction can do

`Effect inst m r` lists the ends of the execute part of a step from `m`: it
retires, it is illegal, it traps, or the process ends.  An action of the decode is
proved to have such an effect, case by case, so that no later proof opens the two
switches again.
-/

namespace MEmu

open Machine (onCore onMem)
open Run (Sat)

/-! ## Traps -/

namespace RV64Core

/-- `takeTrap`, recorded. -/
def trapped (cause tval : Word) (c : RV64Core) : RV64Core :=
  takeTrap cause tval { c with trapLog := c.trapLog ++ [(cause, tval)] }

end RV64Core

/-- The cause of an exception that `raiseTrap` accepts wherever it is raised. -/
def TrapCause (cause : Word) : Prop :=
  Cause.cause cause ≠ ExecFeedbackCode.ok.val ∧
    Cause.cause cause ≠ ExecFeedbackCode.instrPgfault.val

instance (cause : Word) : Decidable (TrapCause cause) := inferInstanceAs (Decidable (_ ∧ _))

/-- The number of a cause. -/
theorem Cause.cause_mk (c : BitVec 63) (i : Bool) : Cause.cause (Cause.mk c i) = c := by
  apply BitVec.eq_of_getLsbD_eq
  intro j hj
  rw [Cause.cause, BitField.getLsbD_get, Cause.mk, BitVec.getLsbD_append]
  simp [hj]

/-- Exceptions with different codes have different causes. -/
theorem Cause.exception_injective : Function.Injective Cause.exception := by
  intro c c' h
  have hval : c.val = c'.val := by
    have hcause := congrArg Cause.cause h
    rwa [Cause.exception, Cause.exception, Cause.cause_mk, Cause.cause_mk] at hcause
  cases c <;> cases c' <;> first | rfl | exact absurd hval (by decide)

/-- The interrupt bit of a cause. -/
theorem Cause.interrupt_mk (c : BitVec 63) (i : Bool) : Cause.interrupt (Cause.mk c i) = i := by
  rw [Cause.interrupt, Cause.mk, BitVec.getLsbD_append]
  simp

/-- A fault of a data access can be raised. -/
theorem MemOp.IsDataFault.trapCause {cause : ExecFeedbackCode} (h : IsDataFault cause) :
    TrapCause (Cause.exception cause) := by
  rw [TrapCause, Cause.exception, Cause.cause_mk]
  cases cause <;> first | exact h.elim | decide

/-- `raiseTrap` while no trap is pending, with its two other assertions. -/
theorem run_raiseTrap {c : RV64Core} (h : c.needTrap = false) (cause tval : Word) :
    (raiseTrap cause tval).run c
      = if Cause.cause cause = ExecFeedbackCode.ok.val then
          .error .causeOk { c with trapLog := c.trapLog ++ [(cause, tval)] }
        else if Cause.cause cause = ExecFeedbackCode.instrPgfault.val ∧
            tval = (c.trapped cause tval).trapProgramCounter then
          .error .fetchFaultAtTrapVector (c.trapped cause tval)
        else .ok () (c.trapped cause tval) := by
  simp only [raiseTrap, EStateM.run_bind, EStateM.run_modify, EStateM.run_get, run_cassert, h,
    if_true, ne_eq, ite_not]
  by_cases hok : Cause.cause cause = ExecFeedbackCode.ok.val
  · simp only [hok, if_true]
  · simp only [hok, if_false]
    rfl

/-- Entered without a trap pending, `raiseTrap` takes the trap or fails another
assertion than its first. -/
theorem raiseTrap_cases {c : RV64Core} (h : c.needTrap = false) (cause tval : Word) :
    (raiseTrap cause tval).run c = .ok () (c.trapped cause tval) ∨
      ∃ e c', (raiseTrap cause tval).run c = .error e c' ∧ e ≠ .needTrap := by
  rw [run_raiseTrap h]
  split
  · exact .inr ⟨_, _, rfl, by decide⟩
  split
  · exact .inr ⟨_, _, rfl, by decide⟩
  · exact .inl rfl

/-- Where the cause can be raised none of them fails. -/
theorem run_raiseTrap_ok {c : RV64Core} (h : c.needTrap = false) {cause : Word}
    (hc : TrapCause cause) (tval : Word) :
    (raiseTrap cause tval).run c = .ok () (c.trapped cause tval) := by
  rw [run_raiseTrap h, if_neg hc.1, if_neg fun hp => hc.2 hp.1]

/-! ## The execute part -/

section Tails

variable {β : Type} {m : Machine β}

/-- A computation of the core that returns. -/
theorem run_onCore_ok {m : Machine β} {α : Type} {x : CoreM α} {a : α} {c : RV64Core}
    (h : x.run m.core = .ok a c) : (onCore x).run m = .ok a { m with core := c } := by
  rw [Machine.run_onCore, h]

/-- A computation of the core that aborts. -/
theorem run_onCore_error {m : Machine β} {α : Type} {x : CoreM α} {e : Abort} {c : RV64Core}
    (h : x.run m.core = .error e c) : (onCore x).run m = .error e { m with core := c } := by
  rw [Machine.run_onCore, h]

/-- What a computation does to the core it does to that of the machine. -/
theorem onCore_sat {α : Type} {x : CoreM α} {Q : α → Machine β → Prop}
    {E : Abort → Machine β → Prop}
    (h : Sat m.core x (fun a c => Q a { m with core := c }) fun e c => E e { m with core := c }) :
    Sat m (onCore x) Q E :=
  .part (fun a c hr => by rw [Machine.run_onCore, hr])
    (fun e c hr => by rw [Machine.run_onCore, hr]) h

/-- What a computation does to memory it does to that of the machine. -/
theorem onMem_sat {α : Type} {x : MMUEnv → MMUM β α} {Q : α → Machine β → Prop}
    {E : Abort → Machine β → Prop}
    (h : Sat m.mem (x m.core.mmuEnv) (fun a s => Q a { m with mem := s })
      fun e s => E e { m with mem := s }) : Sat m (onMem x) Q E :=
  .part (fun a s hr => by rw [Machine.run_onMem, hr])
    (fun e s hr => by rw [Machine.run_onMem, hr]) h

/-- A register write, as a run. -/
theorem run_setInto (rd : BitVec 5) (value : Word) :
    (setInto rd value).run m = .ok .plain { m with core := m.core.setGPR rd value } := rfl

/-- A jump, as a run. -/
theorem run_jumpTo (npc : Word) :
    (jumpTo npc).run m = .ok .newPC { m with core := m.core.setPC npc } := rfl

/-- An exception that can be raised is taken. -/
theorem run_raiseException (h : m.core.needTrap = false) {cause : ExecFeedbackCode}
    (hc : TrapCause (Cause.exception cause)) (tval : Word) :
    (raiseException cause tval).run m
      = .ok () { m with core := m.core.trapped (Cause.exception cause) tval } := by
  rw [raiseException, Machine.run_onCore, run_raiseTrap_ok h hc]

/-- A misaligned target can be raised. -/
theorem trapCause_instrMisalign : TrapCause (Cause.exception .instrMisalign) := by
  decide

end Tails

section Effect

variable {β : Type} [MMIOBus β]

/-- The ways to retire an instruction: a register is set, a jump is taken, an
access is made, a CSR is written, a trap is returned from, the TLB is flushed. -/
inductive Retires (inst : BitVec 32) (m : Machine β) : ExecFlags → Machine β → Prop where
  | set (rd : BitVec 5) (value : Word) :
      Retires inst m .plain { m with core := m.core.setGPR rd value }
  | jump (rd : BitVec 5) (link npc : Word) :
      Retires inst m .newPC { m with core := (m.core.setGPR rd link).setPC npc }
  | mem (op : MemOp) (rd : BitVec 5) (value : Word) (s : MMUSys β)
      (h : (op.perform m.core.mmuEnv).run m.mem = .ok (.ok value) s)
      (hop : memOpOf inst m.core = some (op, rd)) :
      Retires inst m .plain { core := m.core.setGPR rd value, mem := s }
  | csr (a : CSRAddr) (rd : BitVec 5) (value old : Word) (c : RV64Core)
      (hperm : m.core.csrOpPermissionCheck a.val true = true)
      (hwrite : csrWriteOf inst m.core = some (a.val, value))
      (h : m.core.csrWriteCase value a = some c)
      (hmtvec : a = .mtvec → TrapVector.mode value ≤ 1) :
      Retires inst m .plain { m with core := c.setGPR rd old }
  | mret (h : m.core.currentPrivMode = .mMode) :
      Retires inst m .plain { m with core := m.core.returnM }
  | sret (h : m.core.sretPermitted = true) :
      Retires inst m .plain { m with core := m.core.returnS }
  | sfence (vaddr asid : Word) (h : m.core.sfencePermitted = true) :
      Retires inst m .plain
        { m with mem := { m.mem with mmu := m.mem.mmu.flushTLBSfenceVma vaddr asid } }

/-- The memory after a trapping execute part: nothing was tried, or the access in
`ops` failed. -/
def FailedAccess (ops : Option (MemOp × BitVec 5)) (env : MMUEnv) (s s' : MMUSys β) : Prop :=
  s' = s ∨ ∃ (op : MemOp) (rd : BitVec 5) (cause : ExecFeedbackCode), ops = some (op, rd) ∧
    (op.perform env).run s = .ok (.error cause) s'

/-- The ends of the execute part. -/
inductive Effect (inst : BitVec 32) (m : Machine β) :
    EStateM.Result Abort (Machine β) ExecFlags → Prop where
  | retires {flags : ExecFlags} {m' : Machine β} (h : Retires inst m flags m') :
      Effect inst m (.ok flags m')
  | illegal : Effect inst m (.ok .illegal m)
  | traps (cause tval : Word) (flags : ExecFlags) (s : MMUSys β)
      (hflags : flags.is_instr_illegal = false)
      (hs : FailedAccess (memOpOf inst m.core) m.core.mmuEnv m.mem s) :
      Effect inst m (.ok flags { core := m.core.trapped cause tval, mem := s })
  | csrAborts (value : Word) (hwrite : csrWriteOf inst m.core = some (CSRAddr.mtvec.val, value))
      (hmtvec : ¬TrapVector.mode value ≤ 1) : Effect inst m (.error .mtvecMode m)
  | memAborts (op : MemOp) (rd : BitVec 5) (e : Abort) (s : MMUSys β)
      (hop : memOpOf inst m.core = some (op, rd))
      (h : (op.perform m.core.mmuEnv).run m.mem = .error e s) :
      Effect inst m (.error e { m with mem := s })

/-! ### Shared tails -/

variable {inst : BitVec 32} {m : Machine β}

/-- A case that makes the access in `ops`, and is illegal without one. -/
def Accesses (ops : Option (MemOp × BitVec 5)) (m : Machine β) (x : Exec β ExecFlags) : Prop :=
  match ops with
  | none => x.run m = .ok .illegal m
  | some (op, rd) => x.run m = (op.exec rd).run m

/-- An access aborts, puts its value into the register, or traps. -/
theorem run_access (rd : BitVec 5) (h : m.core.needTrap = false) (op : MemOp) :
    (∃ e s, (op.perform m.core.mmuEnv).run m.mem = .error e s ∧
        (op.exec rd).run m = .error e { m with mem := s }) ∨
      (∃ value s, (op.perform m.core.mmuEnv).run m.mem = .ok (.ok value) s ∧
        (op.exec rd).run m = .ok .plain { core := m.core.setGPR rd value, mem := s }) ∨
      ∃ cause s, MemOp.IsDataFault cause ∧
        (op.perform m.core.mmuEnv).run m.mem = .ok (.error cause) s ∧
        (op.exec rd).run m = .ok .plain
          { core := m.core.trapped (Cause.exception cause) op.addr, mem := s } := by
  simp only [MemOp.exec, EStateM.run_bind, Machine.run_onMem]
  cases hr : (op.perform m.core.mmuEnv).run m.mem with
  | error e s => exact .inl ⟨e, s, rfl, rfl⟩
  | ok r s =>
      cases r with
      | ok value => exact .inr (.inl ⟨value, s, rfl, rfl⟩)
      | error cause =>
          have hc := (MemOp.perform_resultOk m.core.mmuEnv op m.mem).ok hr cause rfl
          refine .inr (.inr ⟨cause, s, hc, rfl, ?_⟩)
          simp only [EStateM.run_bind]
          rw [run_raiseException (m := { m with mem := s }) h hc.trapCause]
          rfl

/-- A write to an implemented register fails at the mode of `mtvec` only. -/
theorem run_csr {a : CSRAddr} {value old : Word} {rd : BitVec 5} {c : RV64Core}
    (h : m.core.csrWriteCase value a = some c) :
    ((Action.csr a value old rd).exec).run m
      = if a = .mtvec → TrapVector.mode value ≤ 1 then .ok .plain { m with core := c.setGPR rd old }
        else .error .mtvecMode m := by
  simp only [Action.exec, EStateM.run_bind, Machine.run_onCore, run_csrWrite, CSRAddr.ofVal_val,
    Option.some.injEq, Option.bind_some, h]
  by_cases hmode : a = .mtvec → TrapVector.mode value ≤ 1
  · simp only [if_pos hmode]
    rfl
  · simp only [if_neg hmode]

section Calls

omit [MMIOBus β]

/-- A jump to a misaligned target traps and sets no link. -/
theorem run_jumpAndLink_misaligned (h : m.core.needTrap = false) (rd : BitVec 5) (ret : Word) {npc : Word}
    (hnpc : npc % RV64Core.PC_ALIGN ≠ 0) :
    (jumpAndLink rd ret npc).run m
      = .ok .plain { m with core := m.core.trapped (Cause.exception .instrMisalign) npc } := by
  rw [jumpAndLink, if_pos hnpc, EStateM.run_bind,
    run_raiseException h trapCause_instrMisalign]
  rfl

/-- The cause of `ecall`, by the mode it is made in. -/
def ecallCause (c : RV64Core) : Word := Cause.mk (c.currentPrivMode.val.setWidth 63 + 8) false

/-- `ecall` traps with the cause of its mode. -/
theorem run_ecall {c : RV64Core} (h : c.needTrap = false) :
    ecall.run c = .ok () (c.trapped (ecallCause c) 0) := by
  have hc : TrapCause (ecallCause c) := by
    rw [TrapCause, ecallCause, Cause.cause_mk]
    cases c.currentPrivMode <;> decide
  rw [ecall, EStateM.run_bind, EStateM.run_get]
  exact run_raiseTrap_ok h hc 0

/-- `ebreak` traps with the breakpoint. -/
theorem run_ebreak {c : RV64Core} (h : c.needTrap = false) :
    ebreak.run c = .ok () (c.trapped (Cause.exception .breakpoint) 0) :=
  run_raiseTrap_ok h (by decide) 0

/-- `mret` in M-mode returns. -/
theorem run_mret {c : RV64Core} (h : c.currentPrivMode = .mMode) :
    mret.run c = .ok true c.returnM := by
  rw [mret, EStateM.run_bind, EStateM.run_get]
  dsimp only
  rw [if_neg (not_not.mpr h)]
  rfl

/-- `sret` returns where it is permitted. -/
theorem run_sret {c : RV64Core} (h : c.sretPermitted = true) : sret.run c = .ok true c.returnS := by
  rw [sret, EStateM.run_bind, EStateM.run_get]
  dsimp only
  rw [if_pos h]
  rfl

/-- `sfence.vma` flushes the TLB where it is permitted. -/
theorem run_sfenceVma (vaddr asid : Word) (h : m.core.sfencePermitted = true) :
    (sfenceVma vaddr asid).run m
      = .ok true { m with mem := { m.mem with mmu := m.mem.mmu.flushTLBSfenceVma vaddr asid } } := by
  rw [sfenceVma, EStateM.run_bind, EStateM.run_get]
  dsimp only
  rw [if_pos h]
  rfl

/-- A call that is permitted returns true. -/
theorem run_illegalUnless_ok {call : Exec β Bool} {m' : Machine β}
    (h : call.run m = .ok true m') : (illegalUnless call).run m = .ok .plain m' := by
  rw [illegalUnless, EStateM.run_bind, h]
  rfl

end Calls

/-! ### Actions -/

/-- Each action has one of the effects of a step. -/
theorem Decodes.effect {a : Action} (ha : Decodes inst m.core a) (h : m.core.needTrap = false) :
    Effect inst m ((a.exec).run m) := by
  cases ha with
  | illegal => exact .illegal
  | set rd value => exact .retires (.set rd value)
  | jump imm himm => exact .retires (.jump 0 0 _)
  | link rd ret npc =>
      by_cases hnpc : npc % RV64Core.PC_ALIGN = 0
      · rw [Action.exec, run_jumpAndLink_aligned m rd ret hnpc]
        exact .retires (.jump rd ret npc)
      · rw [Action.exec, run_jumpAndLink_misaligned h rd ret hnpc]
        exact .traps _ _ _ _ rfl (.inl rfl)
  | branch npc =>
      rw [Action.exec]
      split
      · rw [EStateM.run_bind, run_raiseException h trapCause_instrMisalign]
        exact .traps _ _ _ _ rfl (.inl rfl)
      · exact .retires (.jump 0 0 npc)
  | access op rd hop =>
      rcases run_access rd h op with ⟨e, s, hr, hx⟩ | ⟨value, s, hr, hx⟩ | ⟨cause, s, -, hr, hx⟩
      · rw [Action.exec, hx]
        exact .memAborts op rd e s hop hr
      · rw [Action.exec, hx]
        exact .retires (.mem op rd value s hr hop)
      · rw [Action.exec, hx]
        exact .traps _ _ _ _ rfl (.inr ⟨op, rd, cause, hop, hr⟩)
  | csr a value old rd c hperm hwrite hc =>
      rw [run_csr hc]
      split
      · exact .retires (.csr a rd value old c hperm hwrite hc ‹_›)
      · rename_i hmode
        obtain ⟨rfl, hmtvec⟩ := Classical.not_imp.mp hmode
        exact .csrAborts value hwrite hmtvec
  | ecall =>
      rw [Action.exec, EStateM.run_bind, run_onCore_ok (run_ecall h)]
      exact .traps _ _ _ _ rfl (.inl rfl)
  | ebreak =>
      rw [Action.exec, EStateM.run_bind, run_onCore_ok (run_ebreak h)]
      exact .traps _ _ _ _ rfl (.inl rfl)
  | mret hinst hmode =>
      rw [Action.exec, run_illegalUnless_ok (run_onCore_ok (run_mret hmode))]
      exact .retires (.mret hmode)
  | sret hinst hperm =>
      rw [Action.exec, run_illegalUnless_ok (run_onCore_ok (run_sret hperm))]
      exact .retires (.sret hperm)
  | sfence vaddr asid hperm =>
      rw [Action.exec, run_illegalUnless_ok (run_sfenceVma vaddr asid hperm)]
      exact .retires (.sfence vaddr asid hperm)

/-- The execute part of a step, by the action of its instruction. -/
theorem execute_effect (inst : BitVec 32) (h : m.core.needTrap = false) :
    Effect inst m ((execute inst).run m) := by
  rw [run_execute]
  exact (action_decodes inst m.core).effect h

/-- An instruction with a data access is that access. -/
theorem execute_accesses {p : MemOp × BitVec 5} (h : memOpOf inst m.core = some p) :
    Accesses (some p) m (execute inst) := by
  rw [Accesses, run_execute, action_of_memOp h]
  rfl

/-! ### The core after an action -/

/-- The flags and the core that an action returns with. -/
inductive Ends (c : RV64Core) : Action → ExecFlags → RV64Core → Prop where
  | illegal : Ends c .illegal .illegal c
  | set (rd : BitVec 5) (value : Word) : Ends c (.set rd value) .plain (c.setGPR rd value)
  | jump (npc : Word) : Ends c (.jump npc) .newPC (c.setPC npc)
  | link (rd : BitVec 5) (ret npc : Word) (h : npc % RV64Core.PC_ALIGN = 0) :
      Ends c (.link rd ret npc) .newPC ((c.setGPR rd ret).setPC npc)
  | linkTraps (rd : BitVec 5) (ret npc : Word) (h : npc % RV64Core.PC_ALIGN ≠ 0) :
      Ends c (.link rd ret npc) .plain (c.trapped (Cause.exception .instrMisalign) npc)
  | branch (npc : Word) (h : npc % RV64Core.PC_ALIGN = 0) :
      Ends c (.branch npc) .newPC (c.setPC npc)
  | branchTraps (npc : Word) (h : npc % RV64Core.PC_ALIGN ≠ 0) :
      Ends c (.branch npc) .newPC (c.trapped (Cause.exception .instrMisalign) npc)
  | value (op : MemOp) (rd : BitVec 5) (value : Word) :
      Ends c (.access op rd) .plain (c.setGPR rd value)
  | fault (op : MemOp) (rd : BitVec 5) (cause : ExecFeedbackCode)
      (hc : MemOp.IsDataFault cause) :
      Ends c (.access op rd) .plain (c.trapped (Cause.exception cause) op.addr)
  | csr (a : CSRAddr) (value old : Word) (rd : BitVec 5) (c' : RV64Core)
      (h : c.csrWriteCase value a = some c') :
      Ends c (.csr a value old rd) .plain (c'.setGPR rd old)
  | ecall : Ends c .ecall .plain (c.trapped (ecallCause c) 0)
  | ebreak : Ends c .ebreak .plain (c.trapped (Cause.exception .breakpoint) 0)
  | mret : Ends c .mret .plain c.returnM
  | sret : Ends c .sret .plain c.returnS
  | sfence (vaddr asid : Word) : Ends c (.sfence vaddr asid) .plain c

/-- The core after an action that returns. -/
theorem Decodes.ends {a : Action} {flags : ExecFlags} {m' : Machine β}
    (ha : Decodes inst m.core a) (hn : m.core.needTrap = false)
    (h : (a.exec).run m = .ok flags m') : Ends m.core a flags m'.core := by
  cases ha with
  | illegal | set | jump =>
      cases h
      constructor
  | link rd ret npc =>
      by_cases hnpc : npc % RV64Core.PC_ALIGN = 0
      · rw [Action.exec, run_jumpAndLink_aligned m rd ret hnpc] at h
        cases h
        exact .link rd ret npc hnpc
      · rw [Action.exec, run_jumpAndLink_misaligned hn rd ret hnpc] at h
        cases h
        exact .linkTraps rd ret npc hnpc
  | branch npc =>
      by_cases hnpc : npc % RV64Core.PC_ALIGN = 0
      · rw [Action.exec, if_neg (not_not.mpr hnpc), run_jumpTo] at h
        cases h
        exact .branch npc hnpc
      · rw [Action.exec, if_pos hnpc, EStateM.run_bind,
          run_raiseException hn trapCause_instrMisalign] at h
        cases h
        exact .branchTraps npc hnpc
  | access op rd hop =>
      rcases run_access rd hn op with ⟨e, s, -, hr⟩ | ⟨value, s, -, hr⟩ | ⟨cause, s, hc, -, hr⟩
      · rw [Action.exec, hr] at h
        cases h
      · rw [Action.exec, hr] at h
        cases h
        exact .value op rd value
      · rw [Action.exec, hr] at h
        cases h
        exact .fault op rd cause hc
  | csr a value old rd c hperm hwrite hc =>
      rw [run_csr hc] at h
      split at h
      · cases h
        exact .csr a value old rd c hc
      · cases h
  | ecall =>
      rw [Action.exec, EStateM.run_bind, run_onCore_ok (run_ecall hn)] at h
      cases h
      exact .ecall
  | ebreak =>
      rw [Action.exec, EStateM.run_bind, run_onCore_ok (run_ebreak hn)] at h
      cases h
      exact .ebreak
  | mret hinst hmode =>
      rw [Action.exec, run_illegalUnless_ok (run_onCore_ok (run_mret hmode))] at h
      cases h
      exact .mret
  | sret hinst hperm =>
      rw [Action.exec, run_illegalUnless_ok (run_onCore_ok (run_sret hperm))] at h
      cases h
      exact .sret
  | sfence vaddr asid hperm =>
      rw [Action.exec, run_illegalUnless_ok (run_sfenceVma vaddr asid hperm)] at h
      cases h
      exact .sfence vaddr asid

end Effect

end MEmu
