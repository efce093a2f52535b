import MEmu.PlatformRuns

/-!
# The devices of the platform

The serial port, the core-local interruptor and the interrupt controller stay what they are,
and each event that concerns one of them is a method of its adapter.  So a run of the
platform is a run of each adapter (`uart_run`, `clint_run`, `plic_run`), from what the
constructor leaves.
-/

namespace MEmu

open Labelled (Steps)
open MEmuMMIOBus
open Run (Sat Preserves)

/-! ## Calls of the adapters -/

namespace Peripheral

variable {ε σ τ α : Type} {put : σ → τ} {a : σ} {x : EStateM ε σ α}

theorem run_call (put : σ → τ) (a : σ) (x : EStateM ε σ α) (t : τ) :
    (call put a x).run t = match x.run a with
      | .ok r a' => .ok r (put a')
      | .error _ a' => .error .outOfBuffer (put a') := rfl

/-- A call that returns has run the method. -/
theorem call_ok {t t' : τ} {r : α} (hr : (call put a x).run t = .ok r t') :
    ∃ a', x.run a = .ok r a' ∧ t' = put a' := by
  rw [run_call] at hr
  split at hr
  · cases hr
    exact ⟨_, ‹_›, rfl⟩
  · cases hr

end Peripheral

/-! ## What the adapters do -/

/-- A method of the serial port. -/
inductive UartMove (u : CemuUartAdapter) : DevMove → CemuUartAdapter → Prop where
  | read {off size : Word} {buffer data : List Byte} {fb : FuncReturnFeedback}
      {u' : CemuUartAdapter}
      (hr : (CemuUartAdapter.readBuffer off size buffer).run u = .ok (fb, data) u') :
      UartMove u (.access (.read off size buffer data)) u'
  | write {off size : Word} {data : List Byte} {fb : FuncReturnFeedback} {u' : CemuUartAdapter}
      (hr : (CemuUartAdapter.writeBuffer off size data).run u = .ok fb u') :
      UartMove u (.access (.write off size data)) u'
  | update {irq : DevHandle → Bool} {core0 core1 : IntStatus} :
      UartMove u (.call (.updateIntState irq core0 core1)) u
  | step {read : List Byte} {fb : FuncReturnFeedback} {u' : CemuUartAdapter}
      (hr : (CemuUartAdapter.stepMMIODev read).run u = .ok fb u') :
      UartMove u (.call (.stepMMIODev read)) u'

/-- A method of the core-local interruptor. -/
inductive ClintMove (c : CemuClintAdapter) : DevMove → CemuClintAdapter → Prop where
  | read {off size : Word} {buffer data : List Byte} {fb : FuncReturnFeedback}
      {c' : CemuClintAdapter}
      (hr : (CemuClintAdapter.readBuffer off size buffer).run c = .ok (fb, data) c') :
      ClintMove c (.access (.read off size buffer data)) c'
  | write {off size : Word} {data : List Byte} {fb : FuncReturnFeedback} {c' : CemuClintAdapter}
      (hr : (CemuClintAdapter.writeBuffer off size data).run c = .ok fb c') :
      ClintMove c (.access (.write off size data)) c'
  | update {irq : DevHandle → Bool} {core0 core1 : IntStatus} {fb : FuncReturnFeedback}
      {c' : CemuClintAdapter}
      (hr : CemuClintAdapter.updateIntState.run
        { c with core0IntStatus := core0, core1IntStatus := core1 } = .ok fb c') :
      ClintMove c (.call (.updateIntState irq core0 core1)) c'
  | step {read : List Byte} : ClintMove c (.call (.stepMMIODev read)) c

/-- A method of the interrupt controller. -/
inductive PlicMove (q : CemuPlicAdapter) : DevMove → CemuPlicAdapter → Prop where
  | read {off size : Word} {buffer data : List Byte} {r : FuncReturnFeedback × BitVec 32}
      {q' : CemuPlicAdapter}
      (hr : (CemuPlicAdapter.readBuffer off size (Peripheral.bufferWord buffer)).run q = .ok r q') :
      PlicMove q (.access (.read off size buffer data)) q'
  | write {off size : Word} {data : List Byte} {word : BitVec 32} {fb : FuncReturnFeedback}
      {q' : CemuPlicAdapter}
      (hr : (CemuPlicAdapter.writeBuffer off size word).run q = .ok fb q') :
      PlicMove q (.access (.write off size data)) q'
  | update {irq : DevHandle → Bool} {core0 core1 : IntStatus} {fb : FuncReturnFeedback}
      {q' : CemuPlicAdapter}
      (hr : (CemuPlicAdapter.updateIntState irq).run
        { q with core0IntStatus := core0, core1IntStatus := core1 } = .ok fb q') :
      PlicMove q (.call (.updateIntState irq core0 core1)) q'
  | step {read : List Byte} : PlicMove q (.call (.stepMMIODev read)) q

section Moves

variable {a : DevMove} {d : PlatformDev}

theorem discard_ok {σ α : Type} {x : EStateM Abort σ α} {s s' : σ}
    (hr : (do let _ ← x : EStateM Abort σ Unit).run s = .ok () s') :
    ∃ r, x.run s = .ok r s' := by
  rw [EStateM.run_bind] at hr
  split at hr <;> cases hr
  exact ⟨_, ‹_›⟩

theorem uart_goes {u : CemuUartAdapter} (h : DevGoes (.inr (.uartlite u)) a d) :
    ∃ u', d = .inr (.uartlite u') ∧ UartMove u a u' := by
  cases h with
  | @access _ e he =>
      cases he with
      | read hr =>
          obtain ⟨e, he, rfl⟩ := readBuffer_inr_ok hr
          obtain ⟨u', hu, rfl⟩ := Peripheral.call_ok (t := Peripheral.uartlite u) he
          exact ⟨u', rfl, .read hu⟩
      | write hr =>
          obtain ⟨e, he, rfl⟩ := writeBuffer_inr_ok hr
          obtain ⟨u', hu, rfl⟩ := Peripheral.call_ok (t := Peripheral.uartlite u) he
          exact ⟨u', rfl, .write hu⟩
  | @call _ c hr =>
      cases c with
      | updateIntState irq core0 core1 =>
          cases hr
          exact ⟨u, rfl, .update⟩
      | stepMMIODev read =>
          obtain ⟨fb, hstep⟩ := discard_ok hr
          obtain ⟨u', hu, rfl⟩ := Peripheral.call_ok (t := (.inr (.uartlite u) : PlatformDev)) hstep
          exact ⟨u', rfl, .step hu⟩

/-- An update of the lines by the core-local interruptor. -/
theorem updateIntState_clint_ok {c : CemuClintAdapter} {irq : DevHandle → Bool}
    {core0 core1 : IntStatus} {line : IntStatus × IntStatus}
    (hr : (PlatformDev.updateIntState irq core0 core1).run (.inr (.rvCLInt c)) = .ok line d) :
    ∃ fb c', CemuClintAdapter.updateIntState.run
        { c with core0IntStatus := core0, core1IntStatus := core1 } = .ok fb c' ∧
      d = .inr (.rvCLInt c') ∧ line = (c'.core0IntStatus, c'.core1IntStatus) := by
  have hcall : (Peripheral.call (Sum.inr ∘ Peripheral.rvCLInt)
      { c with core0IntStatus := core0, core1IntStatus := core1 } (do
        let _ ← CemuClintAdapter.updateIntState
        let a ← get
        pure (a.core0IntStatus, a.core1IntStatus))).run (.inr (.rvCLInt c) : PlatformDev)
      = .ok line d := hr
  obtain ⟨c', hc, rfl⟩ := Peripheral.call_ok hcall
  rw [EStateM.run_bind] at hc
  split at hc <;> cases hc
  exact ⟨_, _, ‹_›, rfl, rfl⟩

/-- And by the interrupt controller. -/
theorem updateIntState_plic_ok {q : CemuPlicAdapter} {beyond : Nat → List Byte}
    {irq : DevHandle → Bool} {core0 core1 : IntStatus} {line : IntStatus × IntStatus}
    (hr : (PlatformDev.updateIntState irq core0 core1).run (.inr (.rvPLIC q beyond))
      = .ok line d) :
    ∃ fb q', (CemuPlicAdapter.updateIntState irq).run
        { q with core0IntStatus := core0, core1IntStatus := core1 } = .ok fb q' ∧
      d = .inr (.rvPLIC q' beyond) ∧ line = (q'.core0IntStatus, q'.core1IntStatus) := by
  have hcall : (Peripheral.call (fun a => Sum.inr (Peripheral.rvPLIC a beyond))
      { q with core0IntStatus := core0, core1IntStatus := core1 } (do
        let _ ← CemuPlicAdapter.updateIntState irq
        let a ← get
        pure (a.core0IntStatus, a.core1IntStatus))).run (.inr (.rvPLIC q beyond) : PlatformDev)
      = .ok line d := hr
  obtain ⟨q', hq, rfl⟩ := Peripheral.call_ok hcall
  rw [EStateM.run_bind] at hq
  split at hq <;> cases hq
  exact ⟨_, _, ‹_›, rfl, rfl⟩

theorem clint_goes {c : CemuClintAdapter} (h : DevGoes (.inr (.rvCLInt c)) a d) :
    ∃ c', d = .inr (.rvCLInt c') ∧ ClintMove c a c' := by
  cases h with
  | @access _ e he =>
      cases he with
      | read hr =>
          obtain ⟨e, he, rfl⟩ := readBuffer_inr_ok hr
          obtain ⟨c', hc, rfl⟩ := Peripheral.call_ok (t := Peripheral.rvCLInt c) he
          exact ⟨c', rfl, .read hc⟩
      | write hr =>
          obtain ⟨e, he, rfl⟩ := writeBuffer_inr_ok hr
          obtain ⟨c', hc, rfl⟩ := Peripheral.call_ok (t := Peripheral.rvCLInt c) he
          exact ⟨c', rfl, .write hc⟩
  | @call _ call hr =>
      cases call with
      | updateIntState irq core0 core1 =>
          obtain ⟨line, hupdate⟩ := discard_ok hr
          obtain ⟨fb, c', hc, rfl, -⟩ := updateIntState_clint_ok hupdate
          exact ⟨c', rfl, .update hc⟩
      | stepMMIODev read =>
          cases hr
          exact ⟨c, rfl, .step⟩

theorem plic_goes {q : CemuPlicAdapter} {beyond : Nat → List Byte}
    (h : DevGoes (.inr (.rvPLIC q beyond)) a d) :
    ∃ q' beyond', d = .inr (.rvPLIC q' beyond') ∧ PlicMove q a q' := by
  cases h with
  | @access _ e he =>
      cases he with
      | @read _ off size buffer data fb hr =>
          obtain ⟨e, he, rfl⟩ := readBuffer_inr_ok hr
          have hcall : (do
              let r ← Peripheral.call (Peripheral.rvPLIC · beyond) q
                (CemuPlicAdapter.readBuffer off size (Peripheral.bufferWord buffer))
              pure (r.1, if r.1 = .ok then Bytes.ofWord 4 (r.2.setWidth 64) ++ buffer.drop 4
                else buffer) : EStateM Abort Peripheral (FuncReturnFeedback × List Byte)).run
              (.rvPLIC q beyond) = .ok (fb, data) e := he
          rw [EStateM.run_bind] at hcall
          split at hcall <;> cases hcall
          obtain ⟨q', hq, rfl⟩ := Peripheral.call_ok ‹_›
          exact ⟨q', beyond, rfl, .read hq⟩
      | @write _ off size data fb hr =>
          obtain ⟨e, he, rfl⟩ := writeBuffer_inr_ok hr
          obtain ⟨q', hq, rfl⟩ := Peripheral.call_ok (t := Peripheral.rvPLIC q beyond) he
          exact ⟨q', _, rfl, .write hq⟩
  | @call _ call hr =>
      cases call with
      | updateIntState irq core0 core1 =>
          obtain ⟨line, hupdate⟩ := discard_ok hr
          obtain ⟨fb, q', hq, rfl, -⟩ := updateIntState_plic_ok hupdate
          exact ⟨q', beyond, rfl, .update hq⟩
      | stepMMIODev read =>
          cases hr
          exact ⟨q, beyond, rfl, .step⟩

end Moves

/-! ## What the controller keeps -/

namespace CemuPlicAdapter

/-- The wiring of the controller, and the lines that it does not drive. -/
structure SameWiring (q q' : CemuPlicAdapter) : Prop where
  intDevMap : q'.intDevMap = q.intDevMap
  msip0 : q'.core0IntStatus.msip = q.core0IntStatus.msip
  mtip0 : q'.core0IntStatus.mtip = q.core0IntStatus.mtip
  msip1 : q'.core1IntStatus.msip = q.core1IntStatus.msip
  mtip1 : q'.core1IntStatus.mtip = q.core1IntStatus.mtip

variable {q : CemuPlicAdapter}

theorem SameWiring.refl (q : CemuPlicAdapter) : SameWiring q q := ⟨rfl, rfl, rfl, rfl, rfl⟩

theorem onCtrl_wiring {α : Type} (x : PlicM 4 4 α) : Preserves (SameWiring q) (onCtrl x) := by
  intro a ha
  refine onCtrl_sat (Sat.trivial.mono (fun _ c _ => ?_) fun _ _ _ => trivial)
  exact ⟨ha.intDevMap, ha.msip0, ha.mtip0, ha.msip1, ha.mtip1⟩

theorem readBuffer_wiring (begin_addr size : Word) (buffer : BitVec 32) :
    Preserves (SameWiring q) (readBuffer begin_addr size buffer) :=
  .bind .get fun _ => .ite (.bind (onCtrl_wiring _) fun _ => .pure _) (.throw _)

theorem writeBuffer_wiring (begin_addr size : Word) (buffer : BitVec 32) :
    Preserves (SameWiring q) (writeBuffer begin_addr size buffer) :=
  .bind .get fun _ => .ite (.bind (onCtrl_wiring _) fun _ => .pure _) (.throw _)

theorem updateDevs_wiring (irq : DevHandle → Bool) (devs : List (BitVec 32 × DevHandle)) :
    Preserves (SameWiring q) (updateDevs irq devs) := by
  induction devs with
  | nil => exact .pure _
  | cons it rest ih => exact .bind (onCtrl_wiring _) fun _ => ih

theorem updateIntState_wiring (irq : DevHandle → Bool) :
    Preserves (SameWiring q) (updateIntState irq) := by
  have hline {line : CemuPlicAdapter → CemuPlicAdapter} (h : ∀ a, SameWiring a (line a)) :
      Preserves (SameWiring q) (modify line : AdapterM PUnit) := fun a ha => by
    have hl := h a
    exact .modify ⟨hl.intDevMap.trans ha.intDevMap, hl.msip0.trans ha.msip0,
      hl.mtip0.trans ha.mtip0, hl.msip1.trans ha.msip1, hl.mtip1.trans ha.mtip1⟩
  refine .bind .get fun a => .bind (updateDevs_wiring irq a.intDevMap) fun _ => ?_
  refine .bind (onCtrl_wiring _) fun _ => .bind (hline fun _ => ⟨rfl, rfl, rfl, rfl, rfl⟩) fun _ => ?_
  refine .bind (onCtrl_wiring _) fun _ => .bind (hline fun _ => ⟨rfl, rfl, rfl, rfl, rfl⟩) fun _ => ?_
  refine .bind (onCtrl_wiring _) fun _ => .bind (hline fun _ => ⟨rfl, rfl, rfl, rfl, rfl⟩) fun _ => ?_
  refine .bind (onCtrl_wiring _) fun _ => .bind (hline fun _ => ⟨rfl, rfl, rfl, rfl, rfl⟩) fun _ => ?_
  exact .pure _

end CemuPlicAdapter

/-- No method of the controller changes its wiring. -/
theorem PlicMove.intDevMap {q q' : CemuPlicAdapter} {a : DevMove} (h : PlicMove q a q') :
    q'.intDevMap = q.intDevMap := by
  cases h with
  | read hr => exact ((CemuPlicAdapter.readBuffer_wiring _ _ _ q (.refl q)).ok hr).intDevMap
  | write hr => exact ((CemuPlicAdapter.writeBuffer_wiring _ _ _ q (.refl q)).ok hr).intDevMap
  | @update irq core0 core1 fb q' hr =>
      exact ((CemuPlicAdapter.updateIntState_wiring irq _ (.refl _)).ok hr).intDevMap
  | step => rfl

/-! ## Runs -/

namespace DefaultPlatform

section Runs

variable {memData : Nat → Byte} {beyond : Nat → List Byte} {bin_data : List Byte}
  {turns : List Turn} {p : DefaultPlatform}

/-- A device that stays of its kind has a run of its own. -/
theorem adapter_run {σ : Type} {move : σ → DevMove → σ → Prop} (put : σ → PlatformDev → Prop)
    {moves : List DevMove} {d d' : PlatformDev} {s : σ}
    (hgoes : ∀ d a d' s, put s d → DevGoes d a d' → ∃ s', put s' d' ∧ move s a s')
    (hrun : Steps DevGoes d moves d') (hs : put s d) : ∃ s', put s' d' ∧ Steps move s moves s' := by
  obtain ⟨s', hsteps, hs'⟩ := hrun.refine (R := fun d s => put s d) (g := fun a => [a])
    (fun d a d' s hs ha => by
      obtain ⟨s', hs', hmove⟩ := hgoes d a d' s hs ha
      exact ⟨s', .one hmove, hs'⟩) hs
  rw [List.flatMap_singleton'] at hsteps
  exact ⟨s', hs', hsteps⟩

/-- The serial port of a reached platform. -/
theorem uart_run (h : Reaches memData beyond bin_data turns p) :
    ∃ u, (p.sysBus.obj uartlite).dev = .inr (.uartlite u) ∧
      Steps UartMove .new ((trace turns).filterMap (PlatformEvent.concerns uartlite)) u := by
  refine adapter_run (fun u d => d = .inr (.uartlite u)) ?_ (devices_steps h uartlite) rfl
  rintro _ a d' u rfl hgoes
  exact uart_goes hgoes

/-- The core-local interruptor. -/
theorem clint_run (h : Reaches memData beyond bin_data turns p) :
    ∃ c, (p.sysBus.obj rvCLInt).dev = .inr (.rvCLInt c) ∧
      Steps ClintMove (.new default default)
        ((trace turns).filterMap (PlatformEvent.concerns rvCLInt)) c := by
  refine adapter_run (fun c d => d = .inr (.rvCLInt c)) ?_ (devices_steps h rvCLInt) rfl
  rintro _ a d' c rfl hgoes
  exact clint_goes hgoes

/-- The interrupt controller, with the serial port as its source 1. -/
theorem plic_run (h : Reaches memData beyond bin_data turns p) :
    ∃ q beyond', (p.sysBus.obj rvPLIC).dev = .inr (.rvPLIC q beyond') ∧
      q.intDevMap = [(1, uartlite)] ∧
      Steps PlicMove { CemuPlicAdapter.new default default with intDevMap := [(1, uartlite)] }
        ((trace turns).filterMap (PlatformEvent.concerns rvPLIC)) q := by
  have hgoes (d : PlatformDev) (a : DevMove) (d' : PlatformDev) (q : CemuPlicAdapter)
      (hq : ∃ beyond, d = .inr (.rvPLIC q beyond)) (hd : DevGoes d a d') :
      ∃ q', (∃ beyond, d' = .inr (.rvPLIC q' beyond)) ∧ PlicMove q a q' := by
    obtain ⟨beyond, rfl⟩ := hq
    obtain ⟨q', beyond', rfl, hmove⟩ := plic_goes hd
    exact ⟨q', ⟨beyond', rfl⟩, hmove⟩
  obtain ⟨q, ⟨beyond', hq⟩, hsteps⟩ := adapter_run _ hgoes (devices_steps h rvPLIC) ⟨beyond, rfl⟩
  refine ⟨q, beyond', hq, ?_, hsteps⟩
  exact hsteps.invariant (P := fun q => q.intDevMap = [(1, uartlite)])
    (fun _ _ _ _ h hmove => hmove.intDevMap.trans h) rfl

end Runs

end DefaultPlatform

end MEmu
