import Mathlib
import MEmu.Interrupts
import MEmu.PlatformDevices
import MEmu.Thresholds

/-!
# Interrupts on the platform

A turn begins with the two controllers, so what a hart samples in it is a matter of the
registers that they hold then and of the serial port (`raised`).  The trap that a hart
takes is the one that `preExec` picks for those lines.  It takes that trap in the same turn
and does nothing else in it, and where there is none to pick no interrupt is taken.
-/

namespace MEmu

open Labelled (Steps)
open MEmuMMIOBus
open Run (Sat Preserves)
open RV64Core (served afterInt)

/-! ## A step with an interrupt -/

section Hart

variable {β : Type} [MMIOBus β] {m m' : Machine β} {fb : FuncReturnFeedback}

/-- An interrupt that is taken is a trap. -/
theorem needTrap_afterInt (c : RV64Core) (trap : PrivMode × IntType) :
    (c.afterInt (some trap)).needTrap = true := by
  simp only [afterInt]
  split <;> rfl

/-- A hart that serves an interrupt takes the trap and does nothing else. -/
theorem step_served (h : stepCoreAPI.run m = .ok fb m') (hstd : Standard m.begun.pendingEnabled)
    {trap : PrivMode × IntType} (ht : m.begun.served = some trap) :
    m' = { core := (m.begun.afterInt (some trap)).retire false .plain, mem := m.clearLogs.mem } := by
  have hpre : preExec.run m.clearLogs.core = .ok () (m.begun.afterInt (some trap)) := by
    rw [← ht]
    exact RV64Core.preExec_served hstd
  have hfetch : fetchInst.run m
      = .ok none ⟨m.begun.afterInt (some trap), m.clearLogs.mem⟩ := by
    simp only [fetchInst, EStateM.run_bind, EStateM.run_modify, EStateM.run_get,
      run_onCore_ok hpre, needTrap_afterInt, if_true]
    rfl
  rw [stepCoreAPI, EStateM.run_bind, hfetch] at h
  rcases run_exit (m := ⟨m.begun.afterInt (some trap), m.clearLogs.mem⟩) 0 false .plain
    (by rintro ⟨⟩) with hr | hr
  · rw [atExit_legal rfl] at hr
    exact (EStateM.Result.ok.inj (h.symm.trans hr)).2
  · cases h.symm.trans hr

/-- The traps that were entered are exceptions. -/
def OnlyExceptions (c : RV64Core) : Prop := ∀ e ∈ c.trapLog, Cause.interrupt e.1 = false

/-- An exception keeps the record one of exceptions. -/
theorem OnlyExceptions.trapped {c : RV64Core} (h : OnlyExceptions c) {cause tval : Word}
    (hcause : Cause.interrupt cause = false) : OnlyExceptions (c.trapped cause tval) := by
  intro e he
  rw [trapLog_trapped, List.mem_append, List.mem_singleton] at he
  rcases he with he | rfl
  · exact h e he
  · exact hcause

/-- The cause of an exception has no interrupt bit. -/
theorem interrupt_exception (code : ExecFeedbackCode) :
    Cause.interrupt (Cause.exception code) = false := Cause.interrupt_mk _ _

/-- Before the decode. -/
theorem fetchInst_exceptions (h : m.begun.intTaken = none) :
    Sat m fetchInst (fun _ m' => OnlyExceptions m'.core) (fun _ _ => True) := by
  have hpre : preExec.run m.clearLogs.core = .ok () m.begun := by
    rw [run_preExec, ← Machine.begun.eq_1, h]
  have hbegun : OnlyExceptions m.begun := List.forall_mem_nil _
  have hraise (s : MMUSys β) {cause : Word} (hcause : Cause.interrupt cause = false) (tval : Word) :
      Sat (⟨m.begun, s⟩ : Machine β) (Machine.onCore (raiseTrap cause tval))
        (fun _ m' => OnlyExceptions m'.core) (fun _ _ => True) := by
    refine onCore_sat (.intro (fun _ c hr => ?_) fun _ _ _ => trivial)
    rcases raiseTrap_cases (needTrap_begun m) cause tval with hok | ⟨e, c', herr, -⟩
    · cases hr.symm.trans hok
      exact hbegun.trapped hcause
    · cases hr.symm.trans herr
  refine .bind (.modify (.bind (onCore_sat ?_)))
  rw [Sat, hpre]
  refine .bind (.get (.ite (fun h => (Bool.false_ne_true h).elim) fun _ =>
    .ite (fun _ => ?_) fun _ => .bind (onMem_sat ?_)))
  · exact .bind ((hraise _ (interrupt_exception _) _).mono (fun _ _ h => .pure h) fun _ _ h => h)
  · refine .intro (fun r s _ => ?_) fun _ _ _ => trivial
    refine .ite (fun _ => .bind (cassert_sat (fun _ => .bind ?_) fun _ => trivial)) fun _ =>
      .pure hbegun
    exact (hraise s (Cause.interrupt_mk _ _) _).mono (fun _ _ h => .pure h) fun _ _ h => h

/-- An action raises exceptions only. -/
theorem Ends.exceptions {c c' : RV64Core} {a : Action} {flags : ExecFlags} (h : Ends c a flags c')
    (hc : OnlyExceptions c) : OnlyExceptions c' := by
  cases h with
  | illegal | jump | branch | mret | sret | sfence => exact hc
  | set | value => rwa [OnlyExceptions, RV64Core.setGPR_trapLog]
  | link rd ret npc =>
      show OnlyExceptions (c.setGPR rd ret)
      rwa [OnlyExceptions, RV64Core.setGPR_trapLog]
  | linkTraps | branchTraps | fault | ebreak => exact hc.trapped (interrupt_exception _)
  | csr a value old rd c₁ hw =>
      rw [OnlyExceptions, RV64Core.setGPR_trapLog, (RV64Core.csrWriteCase_frame hw).trapLog]
      exact hc
  | ecall => exact hc.trapped (Cause.interrupt_mk _ _)

/-- A hart that serves no interrupt takes none. -/
theorem step_unserved (h : stepCoreAPI.run m = .ok fb m') (ht : m.begun.served = none) :
    OnlyExceptions m'.core := by
  have htaken : m.begun.intTaken = none := Option.map_eq_none_iff.mp ht
  rcases stepCoreAPI_actions h with ⟨cause, tval, hcore, s, hf⟩ | ⟨inst, s, flags, c, -, hends, hcore⟩
  · rw [hcore]
    exact (fetchInst_exceptions htaken).ok hf
  · rw [hcore]
    have hc : OnlyExceptions c := hends.exceptions (List.forall_mem_nil _)
    show OnlyExceptions (c.atExit inst flags)
    unfold RV64Core.atExit
    split
    · exact hc.trapped (interrupt_exception _)
    · exact hc

end Hart

/-! ## The lines -/

/-- The line of a context of the controller, where `irq` is the request of the serial port: a
source other than 0 is pending, enabled, not claimed, and has a priority that reaches the
threshold and is not 0. -/
def externalLine (q : RVPLICtrl 4 4) (irq : Bool) (k : Fin 4) : Bool :=
  decide (∃ i : Fin 5, i.val ≠ 0 ∧ (sourceBit q.pending i = true ∨ i.val = 1 ∧ irq = true) ∧
    sourceBit (q.enable k) i = true ∧ sourceBit q.claimed i = false ∧
      q.threshold k ≤ q.priority i ∧ 0 < q.priority i)

/-- The timer line of a hart after a tick. -/
def timerLine (c : RVCoreLocalInt 2) (k : Fin 2) : Bool := decide (c.mtimecmp k < c.mtime + 1)

/-- The number of a hart. -/
def HartId.number : HartId → Nat
  | .core0 => 0
  | .core1 => 1

theorem HartId.number_lt (h : HartId) : h.number < 2 := by
  cases h <;> decide

theorem HartId.mContext_lt (h : HartId) : 2 * h.number < 4 := by
  cases h <;> decide

theorem HartId.sContext_lt (h : HartId) : 2 * h.number + 1 < 4 := by
  cases h <;> decide

/-- The index of a hart in the core-local interruptor. -/
def HartId.index (h : HartId) : Fin 2 := ⟨h.number, h.number_lt⟩

/-- The contexts of a hart in the interrupt controller. -/
def HartId.mContext (h : HartId) : Fin 4 := ⟨2 * h.number, h.mContext_lt⟩

def HartId.sContext (h : HartId) : Fin 4 := ⟨2 * h.number + 1, h.sContext_lt⟩

/-- The lines that the two controllers raise in a turn. -/
def raised (u : Uartlite) (c : RVCoreLocalInt 2) (q : RVPLICtrl 4 4) (h : HartId) : IntStatus :=
  { meip := externalLine q u.irq h.mContext
    msip := c.msip h.index &&& 1 != 0
    mtip := timerLine c h.index
    seip := externalLine q u.irq h.sContext }

/-- A latch is not empty where there is a source for it. -/
theorem latchOf_ne_zero_iff {c : RVPLICtrl 4 4} {k : Fin 4} :
    c.latchOf k ≠ 0 ↔ ∃ i : Fin 5, i.val ≠ 0 ∧ c.eligible k i = true ∧ 0 < c.priority i := by
  rcases RVPLICtrl.latchOf_cases (c := c) (by decide) k with ⟨hzero, hall⟩ |
    ⟨i, hi, hval, helig, hpos, -⟩
  · refine iff_of_false (fun h => h hzero) ?_
    rintro ⟨i, hi, helig, hpos⟩
    rw [hall i (fun h => hi (congrArg Fin.val h)) helig] at hpos
    exact BitVec.lt_irrefl _ hpos
  · have hval' : i.val ≠ 0 := fun h => hi (Fin.ext h)
    refine iff_of_true (fun hzero => hval' ?_) ⟨i, hval', helig, hpos⟩
    rw [hzero] at hval
    exact hval.symm

/-- An update of the controller drives the lines of its contexts. -/
theorem plic_lines {q q' : CemuPlicAdapter} {irq : DevHandle → Bool} {fb : FuncReturnFeedback}
    (hdevs : q.intDevMap = [(1, DefaultPlatform.uartlite)])
    (hr : (CemuPlicAdapter.updateIntState irq).run q = .ok fb q') (k : Fin 4) :
    q'.line k = externalLine q.intCtrl (irq DefaultPlatform.uartlite) k := by
  obtain ⟨-, pending, hpending, hctrl, hline⟩ :=
    (CemuPlicAdapter.updateIntState_latch irq).ok hr
  rw [hline k, hctrl, Bool.eq_iff_iff, bne_iff_ne, externalLine, decide_eq_true_iff]
  refine latchOf_ne_zero_iff.trans (exists_congr fun i => and_congr_right fun hi => ?_)
  have hpend : sourceBit pending i = true ↔ sourceBit q.intCtrl.pending i = true ∨
      i.val = 1 ∧ irq DefaultPlatform.uartlite = true := by
    rw [hpending, CemuPlicAdapter.Pends, hdevs]
    simp only [List.mem_singleton, exists_eq_left]
    exact or_congr_right (and_congr_left' eq_comm)
  rw [RVPLICtrl.eligible_iff, RVPLICtrl.waiting, Bool.and_eq_true, Bool.and_eq_true,
    Bool.not_eq_true', hpend]
  tauto

/-- The four lines of a hart are all of its status. -/
theorem IntStatus.eq_of {s s' : IntStatus} (hmeip : s.meip = s'.meip) (hmsip : s.msip = s'.msip)
    (hmtip : s.mtip = s'.mtip) (hseip : s.seip = s'.seip) : s = s' := by
  cases s
  cases s'
  cases hmeip
  cases hmsip
  cases hmtip
  cases hseip
  rfl

namespace DefaultPlatform

/-- The states of the devices that interrupts come from. -/
structure Devices (p : DefaultPlatform) (u : CemuUartAdapter) (c : CemuClintAdapter)
    (q : CemuPlicAdapter) : Prop where
  uartlite : (p.sysBus.obj uartlite).dev = .inr (.uartlite u)
  rvCLInt : (p.sysBus.obj rvCLInt).dev = .inr (.rvCLInt c)
  rvPLIC : ∃ beyond, (p.sysBus.obj rvPLIC).dev = .inr (.rvPLIC q beyond)

/-- A device is in one state. -/
theorem Devices.unique {p : DefaultPlatform} {u u' : CemuUartAdapter} {c c' : CemuClintAdapter}
    {q q' : CemuPlicAdapter} (h : p.Devices u c q) (h' : p.Devices u' c' q') :
    u = u' ∧ c = c' ∧ q = q' := by
  obtain ⟨hu, hc, beyond, hq⟩ := h
  obtain ⟨hu', hc', beyond', hq'⟩ := h'
  cases hu.symm.trans hu'
  cases hc.symm.trans hc'
  cases hq.symm.trans hq'
  exact ⟨rfl, rfl, rfl⟩

section Turn

variable {p p' : DefaultPlatform} {t : Turn}

/-- An update by the core-local interruptor leaves the external lines as they are. -/
theorem clint_lines {c c' : CemuClintAdapter} {fb : FuncReturnFeedback}
    (hr : CemuClintAdapter.updateIntState.run c = .ok fb c') :
    c'.core0IntStatus = { c.core0IntStatus with
      msip := c.intCtrl.msip 0 &&& 1 != 0
      mtip := timerLine c.intCtrl 0 } ∧
    c'.core1IntStatus = { c.core1IntStatus with
      msip := c.intCtrl.msip 1 &&& 1 != 0
      mtip := timerLine c.intCtrl 1 } := by
  obtain ⟨-, hmtip, hmsip, hmeip0, hseip0, hmeip1, hseip1⟩ :=
    CemuClintAdapter.updateIntState_sat.ok hr
  refine ⟨IntStatus.eq_of hmeip0 (hmsip 0) (hmtip 0) hseip0, ?_⟩
  exact IntStatus.eq_of hmeip1 (hmsip 1) (hmtip 1) hseip1

/-- The serial port makes no access. -/
theorem DevAction.no_access {counter counter' : Nat} {read : List Byte}
    {b b' : MEmuMMIOBus PlatformDev} {served : List PlatformEvent}
    (h : DevAction counter read b served b' counter') (k : HartId) (e : BusEvent) :
    .access k e ∉ served := by
  cases h with
  | serve => simp
  | wait => simp

/-- The two updates set the lines to what the controllers raise. -/
theorem updates_lines {u : CemuUartAdapter} {c : CemuClintAdapter} {q : CemuPlicAdapter}
    {l l' : IntStatus} {line₁ line₂ : IntStatus × IntStatus} {b₁ b₂ : MEmuMMIOBus PlatformDev}
    (hd : p.Devices u c q) (hwired : q.intDevMap = [(1, DefaultPlatform.uartlite)])
    (hclint : (callDev rvCLInt (PlatformDev.updateIntState (irqs p.sysBus) l l')).run p.sysBus
      = .ok line₁ b₁)
    (hplic : (callDev rvPLIC (PlatformDev.updateIntState (irqs b₁) line₁.1 line₁.2)).run b₁
      = .ok line₂ b₂) :
    line₂.1 = raised u.cemuUartliteDev c.intCtrl q.intCtrl .core0 ∧
      line₂.2 = raised u.cemuUartliteDev c.intCtrl q.intCtrl .core1 := by
  obtain ⟨hrun₁, hothers₁⟩ := callDev_ok hclint
  rw [hd.rvCLInt] at hrun₁
  obtain ⟨fb₁, c', hc, -, rfl⟩ := updateIntState_clint_ok hrun₁
  obtain ⟨hclint0, hclint1⟩ := clint_lines hc
  obtain ⟨beyond, hq⟩ := hd.rvPLIC
  have hirq : irqs b₁ uartlite = u.cemuUartliteDev.irq := by
    rw [irqs, hothers₁ uartlite (by decide), hd.uartlite]
    rfl
  obtain ⟨hrun₂, -⟩ := callDev_ok hplic
  rw [hothers₁ rvPLIC (by decide), hq] at hrun₂
  obtain ⟨fb₂, q', hq', -, rfl⟩ := updateIntState_plic_ok hrun₂
  have hline := plic_lines (q := { q with
    core0IntStatus := c'.core0IntStatus
    core1IntStatus := c'.core1IntStatus }) hwired hq'
  have hkeep := (CemuPlicAdapter.updateIntState_wiring _ _ (.refl _)).ok hq'
  rw [hirq] at hline
  constructor
  · exact IntStatus.eq_of (hline 0) (hkeep.msip0.trans (by rw [hclint0]; rfl))
      (hkeep.mtip0.trans (by rw [hclint0]; rfl)) (hline 1)
  · exact IntStatus.eq_of (hline 2) (hkeep.msip1.trans (by rw [hclint1]; rfl))
      (hkeep.mtip1.trans (by rw [hclint1]; rfl)) (hline 3)

/-- The step of the hart `k` in the turn `t` from `p` to `p'`.  It is made on the bus `b` that the
events `before` of the turn lead to, with the lines that the controllers raise, and its accesses
`own` are all that the hart makes in the turn. -/
structure HartTurn (p : DefaultPlatform) (t : Turn) (p' : DefaultPlatform) (k : HartId)
    (before : List PlatformEvent) (b : MEmuMMIOBus PlatformDev) (line : IntStatus)
    (own : List BusEvent) (m : Machine (MEmuMMIOBus PlatformDev)) : Prop where
  lines : ∃ u c q, p.Devices u c q ∧ line = raised u.cemuUartliteDev c.intCtrl q.intCtrl k
  goes : Steps PlatformStep p.sysBus before b
  step : HartStep (p.hart k) b line own m
  ends : p'.hart k = m.hart
  cut : ∃ after, t.events = before ++ own.map (.access k) ++ after ∧
    ∀ e, .access k e ∉ before ∧ .access k e ∉ after

/-- What the hart accesses in the turn is accessed by its step. -/
theorem HartTurn.mem_events {k : HartId} {before : List PlatformEvent}
    {b : MEmuMMIOBus PlatformDev} {line : IntStatus} {own : List BusEvent}
    {m : Machine (MEmuMMIOBus PlatformDev)} (h : HartTurn p t p' k before b line own m)
    {e : BusEvent} (he : .access k e ∈ t.events) : e ∈ own := by
  obtain ⟨after, hevents, hnone⟩ := h.cut
  rw [hevents, List.mem_append, List.mem_append] at he
  rcases he with (he | he) | he
  · exact absurd he (hnone e).1
  · obtain ⟨e', he', heq⟩ := List.mem_map.mp he
    cases heq
    exact he'
  · exact absurd he (hnone e).2

/-- The step of a hart in a turn begins where its accesses do, on one bus and with one line. -/
theorem HartTurn.unique {p'' : DefaultPlatform} {k : HartId} {before before' : List PlatformEvent}
    {b b' : MEmuMMIOBus PlatformDev} {line line' : IntStatus} {own own' : List BusEvent}
    {m m' : Machine (MEmuMMIOBus PlatformDev)} (h : HartTurn p t p' k before b line own m)
    (h' : HartTurn p t p'' k before' b' line' own' m') {events events' : List BusEvent}
    (heq : before ++ events.map (.access k) = before' ++ events'.map (.access k)) :
    b = b' ∧ line = line' := by
  obtain ⟨after, -, hno⟩ := h.cut
  obtain ⟨after', -, hno'⟩ := h'.cut
  obtain rfl : before = before' := by
    refine Trace.eq_of_append_marked (P := fun e => ∃ e', e = .access k e') heq ?_ ?_ ?_ ?_
    · rintro _ he ⟨e, rfl⟩
      exact (hno e).1 he
    · rintro _ he ⟨e, rfl⟩
      exact (hno' e).1 he
    · simp
    · simp
  obtain ⟨u, c, q, hd, rfl⟩ := h.lines
  obtain ⟨u', c', q', hd', rfl⟩ := h'.lines
  obtain ⟨rfl, rfl, rfl⟩ := hd.unique hd'
  exact ⟨h.goes.unique h'.goes fun _ _ _ _ => PlatformStep.unique, rfl⟩

/-- What the other hart accesses. -/
theorem access_notMem_map {k k' : HartId} (hne : k ≠ k') (e : BusEvent) (events : List BusEvent) :
    .access k e ∉ events.map (PlatformEvent.access k') := by
  intro he
  obtain ⟨e', -, heq⟩ := List.mem_map.mp he
  cases heq
  exact hne rfl

/-- In a turn each hart makes one step, with the lines that the controllers raise. -/
theorem Takes.hartTurn {u : CemuUartAdapter} {c : CemuClintAdapter} {q : CemuPlicAdapter}
    (ht : Takes p t p') (hd : p.Devices u c q)
    (hwired : q.intDevMap = [(1, DefaultPlatform.uartlite)]) (k : HartId) :
    ∃ before b line own m, HartTurn p t p' k before b line own m := by
  obtain ⟨-, heffect⟩ := ht
  obtain ⟨reads, tevents⟩ := t
  dsimp only at heffect
  cases heffect with
  | @mk line₁ line₂ b₁ b₂ events₀ events₁ m₀ m₁ served hclint hplic hcore0 hcore1 hserved hhart0
      hhart1 hlog =>
      obtain ⟨hlines0, hlines1⟩ := updates_lines hd hwired hclint hplic
      have hcalls := updates_steps hclint hplic
      cases k with
      | core0 =>
          refine ⟨_, b₂, _, events₀, m₀, ⟨u, c, q, hd, hlines0⟩, hcalls, hcore0, hhart0,
            events₁.map (.access .core1) ++ served, ?_, fun e => ⟨by simp, ?_⟩⟩
          · simp only [List.cons_append, List.nil_append, List.append_assoc]
          · rw [List.mem_append, not_or]
            exact ⟨access_notMem_map (by decide) e _, hserved.no_access _ e⟩
      | core1 =>
          refine ⟨_, _, _, events₁, m₁, ⟨u, c, q, hd, hlines1⟩,
            hcalls.append (hcore0.steps .core0), hcore1, hhart1, served, ?_, fun e => ⟨?_, ?_⟩⟩
          · simp only [List.cons_append, List.nil_append, List.append_assoc]
          · rw [List.mem_append, not_or]
            exact ⟨by simp, access_notMem_map (by decide) e _⟩
          · exact hserved.no_access _ e

end Turn

/-! ## Runs -/

section Runs

variable {memData : Nat → Byte} {beyond : Nat → List Byte} {bin_data : List Byte}
  {turns : List Turn} {p p' : DefaultPlatform} {t : Turn}

/-- On every platform that is reached the three controllers are in their places, and the serial
port is source 1. -/
theorem Reaches.devices (h : Reaches memData beyond bin_data turns p) :
    ∃ u c q, p.Devices u c q ∧ q.intDevMap = [(1, uartlite)] := by
  obtain ⟨u, hu, -⟩ := uart_run h
  obtain ⟨c, hc, -⟩ := clint_run h
  obtain ⟨q, beyond', hq, hwired, -⟩ := plic_run h
  exact ⟨u, c, q, ⟨hu, hc, beyond', hq⟩, hwired⟩

/-- In each turn of a run each hart makes one step. -/
theorem Reaches.hartTurn (h : Reaches memData beyond bin_data turns p) (ht : Takes p t p')
    (k : HartId) : ∃ before b line own m, HartTurn p t p' k before b line own m := by
  obtain ⟨u, c, q, hd, hwired⟩ := h.devices
  exact ht.hartTurn hd hwired k

/-- What a reset gives the core holds of each hart the constructor builds. -/
theorem builtHart_core {I : RV64Core → Prop} (hI : CoreInvariant (fun _ _ => True) I)
    (hreset : ∀ c : RV64Core, I c.reset) (storage : HartId → Hart) (k : HartId) :
    I (builtHart storage k).core := by
  cases k with
  | core0 => exact hI.setPC (hreset _) _
  | core1 =>
      have hgpr := hI.setGPR (hI.setPC (hreset { (storage .core1).core with
        rvHartID := (1 : BitVec 16).setWidth 64
        csrMCycleNum := 0
        needTrap := false
        intStatus := ⟨false, false, false, false⟩ }) 0x80000000) 10 1
      exact hgpr

/-- A turn is a step of each hart. -/
theorem TurnEffect.hart {read : List Byte} {events : List PlatformEvent}
    (h : TurnEffect p read p' events) (k : HartId) :
    ∃ b line own m, HartStep (p.hart k) b line own m ∧ p'.hart k = m.hart := by
  cases h with
  | mk _ _ hcore0 hcore1 _ hhart0 hhart1 _ =>
      cases k with
      | core0 => exact ⟨_, _, _, _, hcore0, hhart0⟩
      | core1 => exact ⟨_, _, _, _, hcore1, hhart1⟩

/-- An invariant of the core holds of both harts. -/
theorem Reaches.hart {I : RV64Core → Prop} (h : Reaches memData beyond bin_data turns p)
    (hI : CoreInvariant (fun _ _ => True) I) (hreset : ∀ c : RV64Core, I c.reset)
    (hlines : ∀ (c : RV64Core) (lines : IntStatus), I c → I { c with intStatus := lines })
    (k : HartId) : I (p.hart k).core := by
  obtain ⟨hsize, hbuilt, hturns⟩ := h
  have hb := (construct_built hsize).ok hbuilt
  refine hturns.invariant (P := fun p => ∀ k, I (p.hart k).core) (fun t _ p p' h ht k => ?_)
    (fun k => ?_) k
  · obtain ⟨b, line, own, m, hstep, hhart⟩ := ht.effect.hart k
    obtain ⟨fb, hr⟩ := hstep.returns
    rw [hhart]
    exact hI.step hr (hlines _ line (h k)) fun _ _ _ _ _ _ => trivial
  · rw [hb.hart]
    exact builtHart_core hI hreset _ k

/-- On every platform that is reached the enabled interrupts are standard ones. -/
theorem Reaches.standard (h : Reaches memData beyond bin_data turns p) (k : HartId) :
    Standard (p.hart k).core.csrIntEnable :=
  h.hart standard_invariant (fun _ => BitVec.zero_and) (fun _ _ h => h) k

/-- A hart as its step begins, with the lines `line`. -/
def begins (p : DefaultPlatform) (k : HartId) (line : IntStatus) : RV64Core :=
  RV64Core.beginStep { (p.hart k).core with intStatus := line, trapLog := [] }

/-- In every turn of every run a hart takes the interrupt that the privilege logic serves for the
lines that the controllers raise then.  It makes no access in that turn, and without such an
interrupt it takes none. -/
theorem interrupts_taken (h : Reaches memData beyond bin_data turns p) (ht : Takes p t p')
    (k : HartId) :
    ∃ u c q, p.Devices u c q ∧
      match (p.begins k (raised u.cemuUartliteDev c.intCtrl q.intCtrl k)).served with
      | some trap =>
          p'.hart k =
            { core := ((p.begins k (raised u.cemuUartliteDev c.intCtrl q.intCtrl k)).afterInt
                (some trap)).retire false .plain
              mmu := (p.hart k).mmu } ∧
          ∀ e, .access k e ∉ t.events
      | none => OnlyExceptions (p'.hart k).core := by
  obtain ⟨before, b, line, own, m, hturn⟩ := h.hartTurn ht k
  obtain ⟨u, c, q, hd, rfl⟩ := hturn.lines
  obtain ⟨fb, hr⟩ := hturn.step.returns
  refine ⟨u, c, q, hd, ?_⟩
  have hbegun : ((p.hart k).on b (raised u.cemuUartliteDev c.intCtrl q.intCtrl k)).begun
      = p.begins k (raised u.cemuUartliteDev c.intCtrl q.intCtrl k) := rfl
  have hstd : Standard (p.begins k
      (raised u.cemuUartliteDev c.intCtrl q.intCtrl k)).pendingEnabled :=
    (h.standard k).mono fun j hj => by
      rw [RV64Core.pendingEnabled, BitVec.getLsbD_and, Bool.and_eq_true] at hj
      exact hj.2
  split
  · rename_i trap hserved
    have hm := step_served hr (hbegun ▸ hstd) (hbegun ▸ hserved)
    refine ⟨by rw [hturn.ends, hm]; rfl, fun e he => ?_⟩
    have hlog := hturn.step.events.log
    rw [hm] at hlog
    have hnone : own = [] := List.map_eq_nil_iff.mp hlog.symm
    have hmem : e ∈ own := hturn.mem_events he
    rw [hnone] at hmem
    cases hmem
  · rename_i hserved
    rw [hturn.ends]
    exact step_unserved hr (hbegun ▸ hserved)

/-- `addi x1, x0, 0x80; csrrw x0, mie, x1; csrrsi x0, mstatus, 8; j .` -/
def timerImage : List Byte :=
  [0x93, 0x00, 0x00, 0x08, 0x73, 0x90, 0x40, 0x30, 0x73, 0x60, 0x04, 0x30, 0x6f, 0x00, 0x00, 0x00]

/-- Both harts take the timer interrupt in the fourth turn. -/
theorem interrupts_taken_timer :
    ∃ turns p t p', Reaches (fun _ => 0) (fun _ => []) timerImage turns p ∧ Takes p t p' ∧
      (p'.hart .core1).core.csrMachineCause = Cause.int .mTimer ∧
      ∃ u c q, p.Devices u c q ∧
        match (p.begins .core1 (raised u.cemuUartliteDev c.intCtrl q.intCtrl .core1)).served with
        | some trap =>
            p'.hart .core1 =
              { core := ((p.begins .core1 (raised u.cemuUartliteDev c.intCtrl q.intCtrl
                  .core1)).afterInt (some trap)).retire false .plain
                mmu := (p.hart .core1).mmu } ∧
            ∀ e, .access .core1 e ∉ t.events
        | none => OnlyExceptions (p'.hart .core1).core := by
  obtain ⟨turns, p', hreads, hq, h⟩ := exists_reaches (fun _ => 0) (fun _ => []) timerImage
    (fun _ => ⟨default, .construct default⟩) [[], [], [], []]
    (fun p => (p.hart .core1).core.csrMachineCause == Cause.int .mTimer) (by decide)
    (by decide +kernel)
  obtain ⟨turns, t, p, -, hp, ht⟩ := h.last (by rintro rfl; cases hreads)
  exact ⟨turns, p, t, p', hp, ht, eq_of_beq hq, interrupts_taken hp ht .core1⟩

end Runs

end DefaultPlatform

end MEmu
