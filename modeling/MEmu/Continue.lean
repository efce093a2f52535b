import MEmu.DumpRestore
import MEmu.PacketGrammar

/-!
# Continuing to a breakpoint

`cmd_Continue` tests for a breakpoint before each step, the first one too.  So it runs to the first
breakpoint that a step reaches, except where the core is at a breakpoint already: there it replies
at once, and again at each continue that follows.

The steps of a continue are seen on a core that records the program counter after each of them.
-/

namespace MEmu

/-! ## A core that records its steps -/

/-- A core, and the program counters that its steps have reached. -/
structure Traced (γ : Type) where
  core : γ
  reached : List Word

namespace Traced

variable {γ : Type}

/-- A function of the core that is no step. -/
def untraced {α : Type} (x : EStateM Abort γ α) : EStateM Abort (Traced γ) α := fun t =>
  match x.run t.core with
  | .ok a core => .ok a { t with core := core }
  | .error e core => .error e { t with core := core }

variable [ProcessorCoreI γ]

/-- A step that returns is recorded. -/
def step : EStateM Abort (Traced γ) FuncReturnFeedback := fun t =>
  match ProcessorCoreI.step.run t.core with
  | .ok fb core =>
      .ok fb ⟨core, t.reached ++ [ProcessorCoreI.dumpProgramCounter core]⟩
  | .error e core => .error e { t with core := core }

instance : ProcessorCoreI (Traced γ) where
  dumpRegister t := ProcessorCoreI.dumpRegister t.core
  dumpProgramCounter t := ProcessorCoreI.dumpProgramCounter t.core
  step := step
  memRead start_addr size buffer := untraced (ProcessorCoreI.memRead start_addr size buffer)
  memWrite start_addr size buffer := untraced (ProcessorCoreI.memWrite start_addr size buffer)
  writeAllRegister regs := untraced (ProcessorCoreI.writeAllRegister regs)

end Traced

namespace GDBStub

open Run (Sat)

variable {γ : Type} [ProcessorCoreI γ]

/-! ## The loop -/

/-- The core of a command, its record from here on. -/
def tracedCore (c : ProcessorCore γ) : ProcessorCore (Traced γ) := ⟨⟨c.core, []⟩, c.watchPointPCs⟩

/-- The core without its record. -/
def erase (c : ProcessorCore (Traced γ)) : ProcessorCore γ := ⟨c.core.core, c.watchPointPCs⟩

/-- What a run of the core leaves without its record. -/
def eraseResult {α : Type} : EStateM.Result Abort (ProcessorCore (Traced γ)) α →
    EStateM.Result Abort (ProcessorCore γ) α
  | .ok a c => .ok a (erase c)
  | .error e c => .error e (erase c)

/-- A step of the core with its record. -/
theorem run_step_traced (c : ProcessorCore (Traced γ)) :
    (ProcessorCore.onCore ProcessorCoreI.step).run c
      = match ProcessorCoreI.step.run c.core.core with
        | .ok fb core => .ok fb
            ⟨⟨core, c.core.reached ++ [ProcessorCoreI.dumpProgramCounter core]⟩, c.watchPointPCs⟩
        | .error e core => .error e ⟨⟨core, c.core.reached⟩, c.watchPointPCs⟩ := by
  have hstep : ProcessorCoreI.step.run c.core = match ProcessorCoreI.step.run c.core.core with
      | .ok fb core => .ok fb ⟨core, c.core.reached ++ [ProcessorCoreI.dumpProgramCounter core]⟩
      | .error e core => .error e ⟨core, c.core.reached⟩ := rfl
  rw [ProcessorCore.run_onCore, hstep]
  cases ProcessorCoreI.step.run c.core.core <;> rfl

theorem run_step_erase (c : ProcessorCore (Traced γ)) :
    eraseResult ((ProcessorCore.onCore ProcessorCoreI.step).run c)
      = (ProcessorCore.onCore ProcessorCoreI.step).run (erase c) := by
  rw [run_step_traced, ProcessorCore.run_onCore, erase]
  cases ProcessorCoreI.step.run c.core.core <;> rfl

/-- The record does not change what a continue does. -/
theorem run_runToWatchPoint_erase (n : Nat) (c : ProcessorCore (Traced γ)) :
    eraseResult ((runToWatchPoint n).run c) = (runToWatchPoint n).run (erase c) := by
  induction n generalizing c with
  | zero => rfl
  | succ n ih =>
      have hstep := run_step_erase c
      have hpc : (erase c).isCurrentPCAtWatchPoint = c.isCurrentPCAtWatchPoint := rfl
      rw [run_runToWatchPoint, run_runToWatchPoint, ← hstep, hpc]
      cases c.isCurrentPCAtWatchPoint with
      | true => rfl
      | false =>
          cases (ProcessorCore.onCore ProcessorCoreI.step).run c with
          | ok fb c' => exact ih c'
          | error e c' => rfl

/-- The core is at a watch point, and was at none behind the steps before the last. -/
structure StoppedAtFirst (before after : ProcessorCore (Traced γ)) : Prop where
  watchPointPCs : after.watchPointPCs = before.watchPointPCs
  /-- There is a last step. -/
  steps : ∃ earlier, after.core.reached = before.core.reached ++ earlier ++
      [ProcessorCoreI.dumpProgramCounter after.core] ∧
    ∀ pc ∈ earlier, pc ∉ before.watchPointPCs
  stopped : ProcessorCoreI.dumpProgramCounter after.core ∈ before.watchPointPCs

theorem isCurrentPCAtWatchPoint_iff {δ : Type} [ProcessorCoreI δ] {c : ProcessorCore δ} :
    c.isCurrentPCAtWatchPoint = true ↔
      ProcessorCoreI.dumpProgramCounter c.core ∈ c.watchPointPCs := decide_eq_true_iff

/-- A continue from anywhere but a watch point stops at the first that a step reaches. -/
theorem runToWatchPoint_stops {n : Nat} {c c' : ProcessorCore (Traced γ)}
    (hpc : c.isCurrentPCAtWatchPoint = false)
    (hr : (runToWatchPoint n).run c = .ok true c') : StoppedAtFirst c c' := by
  induction n generalizing c with
  | zero => cases hr
  | succ n ih =>
      rw [run_runToWatchPoint, hpc, if_neg Bool.false_ne_true, run_step_traced] at hr
      cases hs : ProcessorCoreI.step.run c.core.core with
      | error e core =>
          rw [hs] at hr
          cases hr
      | ok fb core =>
          rw [hs] at hr
          dsimp only at hr
          cases n with
          | zero => cases hr
          | succ n =>
              by_cases hnext : (⟨⟨core, c.core.reached ++ [ProcessorCoreI.dumpProgramCounter core]⟩,
                  c.watchPointPCs⟩ : ProcessorCore (Traced γ)).isCurrentPCAtWatchPoint = true
              · rw [run_runToWatchPoint, if_pos hnext] at hr
                cases hr
                refine ⟨rfl, ⟨[], by rw [List.append_nil]; rfl, nofun⟩, ?_⟩
                exact isCurrentPCAtWatchPoint_iff.mp hnext
              · have hrest := ih (Bool.eq_false_iff.mpr hnext) hr
                obtain ⟨earlier, hreached, hall⟩ := hrest.steps
                refine ⟨hrest.watchPointPCs, ⟨ProcessorCoreI.dumpProgramCounter core :: earlier, ?_,
                  List.forall_mem_cons.mpr ⟨?_, hall⟩⟩, hrest.stopped⟩
                · rw [hreached, List.append_assoc _ [_], List.singleton_append]
                · exact fun hmem => hnext (isCurrentPCAtWatchPoint_iff.mpr hmem)

/-! ## The command -/

/-- A stub whose core records its steps from here on. -/
def traced (s : Stub γ) : Stub (Traced γ) :=
  { buffer := s.buffer
    packetBeginIndex := s.packetBeginIndex
    packetSize := s.packetSize
    debuggedCore := tracedCore s.debuggedCore
    recvFD := s.recvFD
    sendFD := s.sendFD
    fileBuf := s.fileBuf
    arrivals := s.arrivals
    closed := s.closed
    log := s.log }

/-- A continue that replies has made a step, and has stopped at the first breakpoint that a step
reached. -/
def ContinuesRight (s : Stub γ) : Prop :=
  ∀ env data, cString data = [ch 'c'] → OneReply (traced s) (serve env data (traced s)) →
    StoppedAtFirst (traced s).debuggedCore (serve env data (traced s)).debuggedCore

/-- A continue replies when the loop has stopped. -/
theorem serve_continue {δ : Type} [ProcessorCoreI δ] (env : StubEnv) {data : List Byte}
    (hdata : cString data = [ch 'c']) (s : Stub δ) :
    (OneReply s (serve env data s) ↔
      ∃ c, (runToWatchPoint env.fuel).run s.debuggedCore = .ok true c) ∧
    ∀ c, (runToWatchPoint env.fuel).run s.debuggedCore = .ok true c →
      (serve env data s).debuggedCore = c := by
  obtain ⟨htype, hparams⟩ := parsePacket_continue.mp hdata
  have hsat : Sat s (dispatch env (parsePacket data))
      (fun _ s' => ∃ c, (runToWatchPoint env.fuel).run s.debuggedCore = .ok true c ∧
        replies s' = replies s ++ [packing (str ['S', '0', '5'])] ∧ s'.debuggedCore = c)
      (fun _ s' => (∃ c, (runToWatchPoint env.fuel).run s.debuggedCore = .ok true c ∧
          replies s' = replies s ++ [packing (str ['S', '0', '5'])] ∧ s'.debuggedCore = c) ∨
        replies s' = replies s ∧
          ∀ c, (runToWatchPoint env.fuel).run s.debuggedCore ≠ .ok true c) := by
    have hacked := replies_acked s
    rw [dispatch, htype]
    refine .bind (.modify (.ite (fun hne => ?_) fun _ => ?_))
    · exact absurd (congrArg List.length hparams) hne
    · refine .bind (onDebuggedCore_sat (fun stopped c hr => ?_) fun e c hr => ?_)
      · cases stopped with
        | true =>
            have hsend := send_acked { s with debuggedCore := c } (str ['S', '0', '5'])
            refine Sat.ite (fun _ => hsend.mono (fun _ s' hs' => ?_) fun _ s' hs' => ?_)
              fun hno => absurd rfl hno
            · exact ⟨c, hr, hs'.1, hs'.2⟩
            · exact .inl ⟨c, hr, hs'.1, hs'.2⟩
        | false =>
            refine Sat.ite (fun h => absurd h Bool.false_ne_true) fun _ => ?_
            refine .throw (.inr ⟨hacked, ?_⟩)
            intro c' hr'
            cases hr.symm.trans hr'
      · refine .inr ⟨hacked, ?_⟩
        intro c' hr'
        cases hr.symm.trans hr'
  have hfinal := Sat.final (hsat.mono (fun _ _ h => .inl h) fun _ _ h => h)
  rcases hfinal with ⟨c, hr, hreply, hcore⟩ | ⟨hreply, hno⟩
  · refine ⟨iff_of_true ⟨_, hreply⟩ ⟨c, hr⟩, fun c' hr' => ?_⟩
    cases hr.symm.trans hr'
    exact hcore
  · refine ⟨iff_of_false ?_ ?_, fun c' hr' => absurd hr' (hno c')⟩
    · rintro ⟨data', hone⟩
      rw [serve, hreply] at hone
      simpa using congrArg List.length hone
    · rintro ⟨c, hr⟩
      exact hno c hr

/-- At a watch point a continue replies and makes no step. -/
theorem not_continuesRight {s : Stub γ}
    (h : s.debuggedCore.isCurrentPCAtWatchPoint = true) : ¬ContinuesRight s := by
  intro hall
  let env : StubEnv := { validating with fuel := 1 }
  have hrun : (runToWatchPoint env.fuel).run (traced s).debuggedCore
      = .ok true (traced s).debuggedCore := by
    rw [run_runToWatchPoint]
    exact if_pos h
  have hdata : cString (str ['c']) = [ch 'c'] := by decide
  obtain ⟨hone, hcore⟩ := serve_continue env hdata (traced s)
  obtain ⟨earlier, hreached, -⟩ := (hall env _ hdata (hone.mpr ⟨_, hrun⟩)).steps
  rw [hcore _ hrun] at hreached
  have hlen := congrArg List.length hreached
  simp only [List.length_append, List.length_singleton] at hlen
  omega

theorem continuesRight_iff {s : Stub γ} :
    ContinuesRight s ↔ s.debuggedCore.isCurrentPCAtWatchPoint = false := by
  constructor
  · intro h
    exact Bool.eq_false_iff.mpr fun hpc => not_continuesRight hpc h
  · intro hpc env data hdata hreply
    obtain ⟨hone, hcore⟩ := serve_continue env hdata (traced s)
    obtain ⟨c, hr⟩ := hone.mp hreply
    rw [hcore c hr]
    exact runToWatchPoint_stops hpc hr

/-! ## Breakpoints -/

/-- A `Z` or a `z`. -/
structure BreakpointCmd where
  /-- It is a `Z`. -/
  inserts : Bool
  type : List Byte
  addr : List Byte
  kind : List Byte
  htype : IsHexField type
  haddr : IsHexField addr
  hkind : IsHexField kind

namespace BreakpointCmd

/-- The packet. -/
def data (r : BreakpointCmd) : List Byte :=
  fieldsText [if r.inserts then 'Z' else 'z', ',', ','] [r.type, r.addr, r.kind]

/-- The breakpoints after the command.  A type that the stub does not know is refused. -/
def apply (r : BreakpointCmd) (set : Finset Word) : Finset Word :=
  if (strtoll r.type).setWidth 32 = 0 ∨ (strtoll r.type).setWidth 32 = 1 then
    if r.inserts then insert (strtoll r.addr) set else set.erase (strtoll r.addr)
  else set

theorem parse (r : BreakpointCmd) : (parsePacket r.data).packetType
    = (if r.inserts then .cmdInsertBreakpoint else .cmdRemoveBreakpoint) ∧
      (parsePacket r.data).paramList = [r.type, r.addr, r.kind] := by
  have hall : ∀ f ∈ [r.type, r.addr, r.kind], IsHexField f := by
    simp only [List.forall_mem_cons]
    exact ⟨r.htype, r.haddr, r.hkind, nofun⟩
  have hfields (seps : List Char) (hlen : seps.length = 3) (hseps : ∀ c ∈ seps, ch c ≠ 0)
      (hdata : r.data = fieldsText seps [r.type, r.addr, r.kind]) :
      HasFields seps [r.type, r.addr, r.kind] r.data := by
    refine ⟨hlen.symm, hall, ?_⟩
    rw [hdata]
    exact cString_eq_self (fieldsText_zero_notMem hseps hall)
  cases hz : r.inserts with
  | true =>
      have h := hfields ['Z', ',', ','] rfl (by simp [ch]) (by rw [data, hz]; rfl)
      exact (hasFields_iff (r := .cmdInsertBreakpoint) (by simp [packetTypeRegexStr]) rfl rfl
        (not_hexDigit rfl)).mp h
  | false =>
      have h := hfields ['z', ',', ','] rfl (by simp [ch]) (by rw [data, hz]; rfl)
      exact (hasFields_iff (r := .cmdRemoveBreakpoint) (by simp [packetTypeRegexStr]) rfl rfl
        (not_hexDigit rfl)).mp h

end BreakpointCmd

omit [ProcessorCoreI γ] in
theorem cmdBreakpoint_core {change : Word → ProcessorCore γ → ProcessorCore γ} {p : GdbRspPacket}
    {type addr kind : List Byte} (hp : p.paramList = [type, addr, kind]) (s : Stub γ) :
    Sat s (cmdBreakpoint change p)
      (fun _ s' => s'.debuggedCore
        = if (strtoll type).setWidth 32 = 0 ∨ (strtoll type).setWidth 32 = 1 then
            change (strtoll addr) s.debuggedCore else s.debuggedCore)
      (fun _ s' => s'.debuggedCore
        = if (strtoll type).setWidth 32 = 0 ∨ (strtoll type).setWidth 32 = 1 then
            change (strtoll addr) s.debuggedCore else s.debuggedCore) := by
  rw [cmdBreakpoint, hp]
  refine .ite (fun hbad => ?_) fun hgood => .bind (.modify ?_)
  · rw [if_neg (not_or.mpr hbad)]
    exact packingAndSend_sameCore [] s
  · rw [if_pos (by rwa [not_and_or, not_not, not_not] at hgood)]
    exact packingAndSend_sameCore _ _

/-- `Z` and `z` change the breakpoints and nothing else. -/
theorem serve_breakpoint (env : StubEnv) (r : BreakpointCmd) (s : Stub γ) :
    (serve env r.data s).debuggedCore
      = { s.debuggedCore with watchPointPCs := r.apply s.debuggedCore.watchPointPCs } := by
  obtain ⟨htype, hparams⟩ := r.parse
  apply serve_of (P := fun s' => s'.debuggedCore = _)
  rw [dispatch, htype, BreakpointCmd.apply]
  cases hz : r.inserts with
  | true | false =>
      refine .bind (.modify ((cmdBreakpoint_core hparams _).mono (fun _ s' h => ?_)
        fun _ s' h => ?_))
      all_goals
        rw [h]
        split <;> rfl

/-- The stub after a sequence of commands. -/
def setUp (env : StubEnv) (cmds : List BreakpointCmd) (s : Stub γ) : Stub γ :=
  cmds.foldl (fun s r => serve env r.data s) s

/-- A sequence of commands builds its set of breakpoints and nothing else. -/
theorem setUp_core (env : StubEnv) (cmds : List BreakpointCmd) (s : Stub γ) :
    (setUp env cmds s).debuggedCore = { s.debuggedCore with
      watchPointPCs := cmds.foldl (fun set r => r.apply set) s.debuggedCore.watchPointPCs } := by
  induction cmds generalizing s with
  | nil => rfl
  | cons r cmds ih =>
      rw [setUp, List.foldl_cons, ← setUp, ih, serve_breakpoint, List.foldl_cons]

/-- A continue is right from where no breakpoint is, and from nowhere else. -/
theorem continue_iff (env : StubEnv) (cmds : List BreakpointCmd) (s : Stub γ) :
    ContinuesRight (setUp env cmds s) ↔
      ProcessorCoreI.dumpProgramCounter s.debuggedCore.core ∉
        cmds.foldl (fun set r => r.apply set) s.debuggedCore.watchPointPCs := by
  rw [continuesRight_iff, setUp_core, ProcessorCore.isCurrentPCAtWatchPoint,
    decide_eq_false_iff_not]

/-- `Z0,0,4`, on a core whose program counter is 0. -/
theorem continue_stuck : ¬∀ (cmds : List BreakpointCmd) (s : Stub (Machine (MEmuMMIOBus MMIOMem))),
    ContinuesRight (setUp validating cmds s) := by
  intro hall
  have hdigit : IsHexField (str ['0']) := ⟨by decide, by decide⟩
  let z : BreakpointCmd := ⟨true, str ['0'], str ['0'], str ['0'], hdigit, hdigit, hdigit⟩
  refine not_continuesRight ?_ (hall [z] (atReset []))
  rw [setUp_core]
  rfl

end GDBStub

end MEmu
