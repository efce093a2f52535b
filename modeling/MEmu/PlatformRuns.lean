import MEmu.PlatformMap

/-!
# Runs of the platform

A turn of the platform is a list of events: the calls that it makes of the devices, and
the bus accesses of the two harts in the order in which they are made.  `Runs` collects the
events of a run.  By the memory map each event concerns one device, and for each device
the events that concern it are a run of that device (`runs_project`).  So what holds of a
device by itself holds of it on the platform.
-/

namespace MEmu

open Labelled (Steps)
open MEmuMMIOBus
open Run (Sat)

/-! ## Events -/

/-- A call of a device object by the platform. -/
inductive DevCall where
  | updateIntState (irq : DevHandle → Bool) (core0 core1 : IntStatus)
  | stepMMIODev (read : List Byte)

/-- The call. -/
def DevCall.run : DevCall → EStateM Abort PlatformDev Unit
  | updateIntState irq core0 core1 => do
      let _ ← PlatformDev.updateIntState irq core0 core1
  | stepMMIODev read => do
      let _ ← PlatformDev.stepMMIODev read

/-- An event of the platform: a bus access of a hart, or a call of a device. -/
inductive PlatformEvent where
  | access (h : HartId) (e : BusEvent)
  | call (k : DevHandle) (c : DevCall)

/-- What happens to a device. -/
inductive DevMove where
  | access (e : DevEvent)
  | call (c : DevCall)

namespace PlatformEvent

/-- The record of an access. -/
def record : PlatformEvent → Option (HartId × BusAccess)
  | access h e => some (h, e.access)
  | call _ _ => none

/-- What happens to the device `k` in an event. -/
def concerns (k : DevHandle) : PlatformEvent → Option DevMove
  | access _ e =>
      if DefaultPlatform.deviceAt e.addr = some k then
        some (.access (e.forDev (DefaultPlatform.regionOf k).1))
      else none
  | call k' c => if k' = k then some (.call c) else none

/-- An access concerns the device at its address. -/
theorem concerns_access {h : HartId} {e : BusEvent} {k : DevHandle} {a : DevMove} :
    (access h e).concerns k = some a ↔ DefaultPlatform.deviceAt e.addr = some k ∧
      a = .access (e.forDev (DefaultPlatform.regionOf k).1) := by
  rw [concerns]
  split
  · rename_i hat
    rw [Option.some.injEq, eq_comm, and_iff_right hat]
  · exact iff_of_false nofun fun h => absurd h.1 ‹_›

end PlatformEvent

/-- The bus and its devices go by one event. -/
inductive PlatformStep :
    MEmuMMIOBus PlatformDev → PlatformEvent → MEmuMMIOBus PlatformDev → Prop where
  | access {b b' : MEmuMMIOBus PlatformDev} (h : HartId) {e : BusEvent} (he : BusStep b e b') :
      PlatformStep b (.access h e) b'
  | call {b b' : MEmuMMIOBus PlatformDev} {k : DevHandle} {c : DevCall}
      (hr : (callDev k c.run).run b = .ok () b') : PlatformStep b (.call k c) b'

/-- An event has one outcome. -/
theorem PlatformStep.unique {b b₁ b₂ : MEmuMMIOBus PlatformDev} {e : PlatformEvent}
    (h : PlatformStep b e b₁) (h' : PlatformStep b e b₂) : b₁ = b₂ := by
  cases h with
  | access _ he =>
      cases h' with
      | access _ he' => exact he.unique he'
  | call hr =>
      cases h' with
      | call hr' => exact (EStateM.Result.ok.inj (hr.symm.trans hr')).2

/-- A device goes by one access or call. -/
inductive DevGoes : PlatformDev → DevMove → PlatformDev → Prop where
  | access {d d' : PlatformDev} {e : DevEvent} (he : DevStep d e d') : DevGoes d (.access e) d'
  | call {d d' : PlatformDev} {c : DevCall} (hr : c.run.run d = .ok () d') :
      DevGoes d (.call c) d'

namespace DefaultPlatform

/-- The devices of the platform. -/
abbrev allDevs : List DevHandle := [ram, uartlite, rvCLInt, rvPLIC]

/-! ## Projection -/

section Project

variable {b b' : MEmuMMIOBus PlatformDev} {e : PlatformEvent} {k : DevHandle}

/-- The device at an address is one of the map. -/
theorem deviceAt_mem {addr : Word} (h : deviceAt addr = some k) : k ∈ allDevs := by
  unfold deviceAt at h
  split at h
  · cases h
    decide
  split at h
  · cases h
    decide
  split at h
  · cases h
    decide
  split at h
  · cases h
    decide
  · cases h

/-- No event moves a device. -/
theorem Laid.step (h : Laid allDevs b) (he : PlatformStep b e b') : Laid allDevs b' := by
  cases he with
  | access _ he =>
      have hd := dispatched_of_step h.routed he
      exact h.map hd.map hd.routed
  | @call _ k c hr =>
      have hroutes := (callDev_sameRoutes k c.run b).ok hr
      exact h.map hroutes.sameMap (h.routed.routes hroutes)

/-- An event is a step of the device that it concerns, and leaves every other alone. -/
theorem concerns_goes (h : Laid allDevs b) (he : PlatformStep b e b') (k : DevHandle) :
    (e.concerns k = none → (b'.obj k).dev = (b.obj k).dev) ∧
      ∀ a, e.concerns k = some a → DevGoes (b.obj k).dev a (b'.obj k).dev := by
  cases he with
  | access _ he =>
      have hd := dispatched_of_step h.routed he
      rw [PlatformEvent.concerns]
      split
      · rename_i hat
        have hbase := h.base k (deviceAt_mem hat)
        refine ⟨nofun, ?_⟩
        rintro _ ⟨⟩
        rw [← hbase]
        exact .access (hd.dispatch k (by rw [h.findDev, hat]))
      · rename_i hat
        refine ⟨fun _ => ?_, nofun⟩
        rw [hd.others k (by rwa [h.findDev])]
  | @call _ k' c hr =>
      obtain ⟨hrun, hothers⟩ := callDev_ok hr
      rw [PlatformEvent.concerns]
      split
      · subst k'
        refine ⟨nofun, ?_⟩
        rintro _ ⟨⟩
        exact .call hrun
      · rename_i hne
        refine ⟨fun _ => ?_, nofun⟩
        rw [hothers k (Ne.symm hne)]

/-- What happens to the bus happens to each device by the events that concern it. -/
theorem steps_project {trace : List PlatformEvent} (h : Laid allDevs b)
    (hrun : Steps PlatformStep b trace b') (k : DevHandle) :
    Steps DevGoes (b.obj k).dev (trace.filterMap (PlatformEvent.concerns k)) (b'.obj k).dev :=
  hrun.project (f := fun b => (b.obj k).dev) (P := Laid allDevs) (fun _ _ _ h he => h.step he)
    (fun _ _ _ h he => concerns_goes h he k) h

end Project

/-! ## Turns -/

/-- The interrupt requests of the devices on a bus. -/
def irqs (b : MEmuMMIOBus PlatformDev) (k : DevHandle) : Bool := (b.obj k).dev.getIrqStatus

end DefaultPlatform

/-- A hart on a bus, with the interrupt lines as they are. -/
def Hart.on {β : Type} (hart : Hart) (b : β) (lines : IntStatus) : Machine β :=
  { core := { hart.core with intStatus := lines }
    mem := { mmu := hart.mmu, sysBus := b, busLog := [] } }

/-- The hart that a machine leaves. -/
def Machine.hart {β : Type} (m : Machine β) : Hart := ⟨m.core, m.mem.mmu⟩

/-- A step of a hart on the bus `b`, by the accesses `events`. -/
structure HartStep (hart : Hart) (b : MEmuMMIOBus PlatformDev) (lines : IntStatus)
    (events : List BusEvent) (m : Machine (MEmuMMIOBus PlatformDev)) : Prop where
  returns : ∃ fb, stepCoreAPI.run (hart.on b lines) = .ok fb m
  events : StepEvents (hart.on b lines) m events

/-- Of the hart a step sees all but the lines. -/
theorem HartStep.congr {hart hart' : Hart} {b : MEmuMMIOBus PlatformDev} {lines : IntStatus}
    {events : List BusEvent} {m : Machine (MEmuMMIOBus PlatformDev)}
    (h : HartStep hart b lines events m)
    (hon : ∀ b lines, hart.on b lines = hart'.on (β := MEmuMMIOBus PlatformDev) b lines) :
    HartStep hart' b lines events m :=
  ⟨hon b lines ▸ h.returns, hon b lines ▸ h.events⟩

/-- A hart goes by its accesses. -/
theorem HartStep.steps {hart : Hart} {b : MEmuMMIOBus PlatformDev} {lines : IntStatus}
    {events : List BusEvent} {m : Machine (MEmuMMIOBus PlatformDev)}
    (hs : HartStep hart b lines events m) (h : HartId) :
    Steps PlatformStep b (events.map (PlatformEvent.access h)) m.mem.sysBus :=
  hs.events.goes.relabel fun _ _ _ he => .access h he

/-- The events of a step are recorded under its hart. -/
theorem HartStep.records {hart : Hart} {b : MEmuMMIOBus PlatformDev} {lines : IntStatus}
    {events : List BusEvent} {m : Machine (MEmuMMIOBus PlatformDev)}
    (hs : HartStep hart b lines events m) (h : HartId) :
    (events.map (PlatformEvent.access h)).filterMap PlatformEvent.record
      = m.mem.busLog.map (Prod.mk h) := by
  rw [hs.events.log, List.filterMap_map, List.map_map, ← List.filterMap_eq_map]
  rfl

namespace DefaultPlatform

/-- The end of a turn: every hundredth time the serial port is served. -/
inductive DevAction (counter : Nat) (read : List Byte) (b : MEmuMMIOBus PlatformDev) :
    List PlatformEvent → MEmuMMIOBus PlatformDev → Nat → Prop where
  | serve {b' : MEmuMMIOBus PlatformDev} (hcounter : counter + 1 = 100)
      (hr : (callDev uartlite (DevCall.stepMMIODev read).run).run b = .ok () b') :
      DevAction counter read b [.call uartlite (.stepMMIODev read)] b' 0
  | wait (hcounter : counter + 1 ≠ 100) : DevAction counter read b [] b (counter + 1)

/-- A turn: the controllers update the lines to `line₁` and then to `line₂`, each hart makes a step
with its own, and then the serial port has its turn. -/
inductive TurnEffect (p : DefaultPlatform) (read : List Byte) (p' : DefaultPlatform) :
    List PlatformEvent → Prop where
  | mk {line₁ line₂ : IntStatus × IntStatus} {b₁ b₂ : MEmuMMIOBus PlatformDev}
      {events₀ events₁ : List BusEvent} {m₀ m₁ : Machine (MEmuMMIOBus PlatformDev)}
      {served : List PlatformEvent}
      (hclint : (callDev rvCLInt (PlatformDev.updateIntState (irqs p.sysBus)
        (p.lines .core0) (p.lines .core1))).run p.sysBus = .ok line₁ b₁)
      (hplic : (callDev rvPLIC (PlatformDev.updateIntState (irqs b₁) line₁.1 line₁.2)).run b₁
        = .ok line₂ b₂)
      (hcore0 : HartStep (p.hart .core0) b₂ line₂.1 events₀ m₀)
      (hcore1 : HartStep (p.hart .core1) m₀.mem.sysBus line₂.2 events₁ m₁)
      (hserved : DevAction p.counter read m₁.mem.sysBus served p'.sysBus p'.counter)
      (hhart0 : p'.hart .core0 = m₀.hart) (hhart1 : p'.hart .core1 = m₁.hart)
      (hlog : p'.log = p.log ++ m₀.mem.busLog.map (Prod.mk .core0) ++
        m₁.mem.busLog.map (Prod.mk .core1)) :
      TurnEffect p read p'
        (.call rvCLInt (.updateIntState (irqs p.sysBus) (p.lines .core0) (p.lines .core1)) ::
          .call rvPLIC (.updateIntState (irqs b₁) line₁.1 line₁.2) ::
            (events₀.map (.access .core0) ++ events₁.map (.access .core1) ++ served))

section Turn

variable {p p' : DefaultPlatform} {read : List Byte}

/-- A call of a device object, without what it returns. -/
theorem run_discard {α : Type} {k : DevHandle} {c : DevCall} {b b' : MEmuMMIOBus PlatformDev}
    {x : EStateM Abort PlatformDev α} {a : α} (hc : c.run = do let _ ← x)
    (hr : (callDev k x).run b = .ok a b') : (callDev k c.run).run b = .ok () b' := by
  rw [run_callDev] at hr ⊢
  rw [hc, EStateM.run_bind]
  split at hr
  · rename_i a d hx
    cases hr
    rw [hx]
    rfl
  · cases hr

/-- What an update of the lines does to the platform. -/
structure LinesSet (p : DefaultPlatform) (line : IntStatus × IntStatus)
    (b : MEmuMMIOBus PlatformDev) (p' : DefaultPlatform) : Prop where
  sysBus : p'.sysBus = b
  line0 : p'.lines .core0 = line.1
  line1 : p'.lines .core1 = line.2
  hart : ∀ h (b : MEmuMMIOBus PlatformDev) lines, (p'.hart h).on b lines = (p.hart h).on b lines
  log : p'.log = p.log
  counter : p'.counter = p.counter

/-- An update asks a device for its line, and sets the lines of the harts. -/
theorem updateIntState_sat (k : DevHandle) :
    Sat p (updateIntState k)
      (fun _ p' => ∃ line b, (callDev k (PlatformDev.updateIntState (irqs p.sysBus)
        (p.lines .core0) (p.lines .core1))).run p.sysBus = .ok line b ∧ LinesSet p line b p')
      (fun _ _ => True) := by
  refine .bind (.get (.bind (onBus_sat (.intro (fun line b hr => ?_) fun _ _ _ => trivial))))
  exact .modify ⟨line, b, hr, rfl, rfl, rfl, fun _ _ _ => rfl, rfl, rfl⟩

/-- What a step of the hart `h` does to the platform. -/
structure Stepped (p : DefaultPlatform) (h : HartId) (m : Machine (MEmuMMIOBus PlatformDev))
    (p' : DefaultPlatform) : Prop where
  sysBus : p'.sysBus = m.mem.sysBus
  hart : p'.hart h = m.hart
  other : ∀ k, k ≠ h → p'.hart k = p.hart k
  log : p'.log = p.log ++ m.mem.busLog.map (Prod.mk h)
  counter : p'.counter = p.counter

/-- The step of a hart is one of its core and MMU on the common bus. -/
theorem run_stepCore (h : HartId) (p : DefaultPlatform) :
    (stepCore h).run p = match stepCoreAPI.run ((p.hart h).on p.sysBus (p.lines h)) with
      | .ok _ m => .ok () { p with toPlatform := p.after h m }
      | .error e m => .error e { p with toPlatform := p.after h m } := rfl

/-- The step of a hart, event by event. -/
theorem stepCore_sat (h : HartId) :
    Sat p (stepCore h)
      (fun _ p' => ∃ events m, HartStep (p.hart h) p.sysBus (p.lines h) events m ∧ Stepped p h m p')
      (fun _ _ => True) := by
  refine .intro (fun _ p' hr => ?_) fun _ _ _ => trivial
  rw [run_stepCore] at hr
  split at hr
  · rename_i fb m hm
    cases hr
    obtain ⟨events, hevents⟩ := stepCoreAPI_busEvents hm
    exact ⟨events, m, ⟨⟨fb, hm⟩, hevents⟩, rfl, if_pos rfl, fun _ hk => if_neg hk, rfl, rfl⟩
  · cases hr

/-- The service of the devices leaves the harts and the log alone. -/
theorem devAction_sat :
    Sat p (devAction read)
      (fun _ p' => (∃ served, DevAction p.counter read p.sysBus served p'.sysBus p'.counter) ∧
        p'.hart = p.hart ∧ p'.log = p.log) (fun _ _ => True) := by
  refine .bind (.modify (.bind (.get (.ite (fun hcounter => ?_) fun hcounter => ?_))))
  · refine .bind (.modify (.bind (onBus_sat (.intro (fun fb b hr => ?_) fun _ _ _ => trivial))))
    exact .pure ⟨⟨_, .serve hcounter (run_discard (c := .stepMMIODev read) rfl hr)⟩, rfl, rfl⟩
  · exact .pure ⟨⟨_, .wait hcounter⟩, rfl, rfl⟩

/-- What a turn does, event by event. -/
theorem turn_effect (hr : (turn read).run p = .ok () p') : ∃ new, TurnEffect p read p' new := by
  have hsat : Sat p (turn read) (fun _ p' => ∃ new, TurnEffect p read p' new)
      (fun _ _ => True) := by
    refine .bind ((updateIntState_sat rvCLInt).mono ?_ fun _ _ h => h)
    rintro _ p₁ ⟨line₁, b₁, hclint, h₁⟩
    refine .bind ((updateIntState_sat rvPLIC).mono ?_ fun _ _ h => h)
    rintro _ p₂ ⟨line₂, b₂, hplic, h₂⟩
    refine .bind ((stepCore_sat .core0).mono ?_ fun _ _ h => h)
    rintro _ p₃ ⟨events₀, m₀, hcore0, h₃⟩
    refine .bind ((stepCore_sat .core1).mono ?_ fun _ _ h => h)
    rintro _ p₄ ⟨events₁, m₁, hcore1, h₄⟩
    refine devAction_sat.mono ?_ fun _ _ h => h
    rintro _ p₅ ⟨⟨served, hserved⟩, hhart, hlog⟩
    rw [h₁.sysBus, h₁.line0, h₁.line1] at hplic
    rw [h₂.sysBus, h₂.line0] at hcore0
    rw [h₃.sysBus, h₃.other .core1 nofun] at hcore1
    rw [h₄.sysBus, h₄.counter, h₃.counter, h₂.counter, h₁.counter] at hserved
    have hline : p₃.lines .core1 = line₂.2 := by
      rw [lines, h₃.other .core1 nofun]
      exact h₂.line1
    rw [hline] at hcore1
    have hon (h : HartId) (b : MEmuMMIOBus PlatformDev) (l : IntStatus) :
        (p₂.hart h).on b l = (p.hart h).on b l := (h₂.hart h b l).trans (h₁.hart h b l)
    refine ⟨_, .mk hclint hplic (hcore0.congr (hon _)) (hcore1.congr (hon _)) hserved ?_ ?_ ?_⟩
    · rw [hhart, h₄.other .core0 nofun, h₃.hart]
    · rw [hhart, h₄.hart]
    · rw [hlog, h₄.log, h₃.log, h₂.log, h₁.log]
  exact hsat.ok hr

/-- The service goes by its events. -/
theorem DevAction.steps {counter counter' : Nat} {b b' : MEmuMMIOBus PlatformDev}
    {served : List PlatformEvent} (h : DevAction counter read b served b' counter') :
    Steps PlatformStep b served b' := by
  cases h with
  | serve _ hr => exact .one (.call hr)
  | wait => exact .nil _

/-- The service is not recorded. -/
theorem DevAction.records {counter counter' : Nat} {b b' : MEmuMMIOBus PlatformDev}
    {served : List PlatformEvent} (h : DevAction counter read b served b' counter') :
    served.filterMap PlatformEvent.record = [] := by
  cases h with
  | serve => rfl
  | wait => rfl

/-- The two updates of the lines are steps of the bus. -/
theorem updates_steps {irq irq' : DevHandle → Bool} {l l' : IntStatus}
    {line₁ line₂ : IntStatus × IntStatus} {b b₁ b₂ : MEmuMMIOBus PlatformDev}
    (hclint : (callDev rvCLInt (PlatformDev.updateIntState irq l l')).run b = .ok line₁ b₁)
    (hplic : (callDev rvPLIC (PlatformDev.updateIntState irq' line₁.1 line₁.2)).run b₁
      = .ok line₂ b₂) :
    Steps PlatformStep b [.call rvCLInt (.updateIntState irq l l'),
      .call rvPLIC (.updateIntState irq' line₁.1 line₁.2)] b₂ :=
  (Steps.one (PlatformStep.call (run_discard (c := .updateIntState ..) rfl hclint))).snoc
    (PlatformStep.call (run_discard (c := .updateIntState ..) rfl hplic))

/-- A turn goes by its events. -/
theorem TurnEffect.steps {new : List PlatformEvent} (h : TurnEffect p read p' new) :
    Steps PlatformStep p.sysBus new p'.sysBus := by
  cases h with
  | mk hclint hplic hcore0 hcore1 hserved _ _ _ =>
      have hcalls := updates_steps hclint hplic
      exact hcalls.append (((hcore0.steps .core0).append (hcore1.steps .core1)).append
        hserved.steps)

/-- A turn records the accesses of its harts. -/
theorem TurnEffect.records {new : List PlatformEvent} (h : TurnEffect p read p' new) :
    p'.log = p.log ++ new.filterMap PlatformEvent.record := by
  cases h with
  | mk hclint hplic hcore0 hcore1 hserved _ _ hlog =>
      rw [hlog, List.append_assoc, ← hcore0.records, ← hcore1.records,
        List.filterMap_cons_none rfl, List.filterMap_cons_none rfl, List.filterMap_append,
        List.filterMap_append, hserved.records, List.append_nil]

end Turn

/-! ## Runs -/

/-- A turn, with what the character device has to read in it and the events that it makes. -/
structure Turn where
  read : List Byte
  events : List PlatformEvent

/-- The platform takes one turn. -/
structure Takes (p : DefaultPlatform) (t : Turn) (p' : DefaultPlatform) : Prop where
  run : (turn t.read).run p = .ok () p'
  effect : TurnEffect p t.read p' t.events

/-- A turn has one outcome. -/
theorem Takes.unique {p p₁ p₂ : DefaultPlatform} {t : Turn} (h : Takes p t p₁) (h' : Takes p t p₂) :
    p₁ = p₂ :=
  (EStateM.Result.ok.inj (h.run.symm.trans h'.run)).2

/-- `Run_Platform_API`, for as many turns as there are entries. -/
def runPlatform (reads : List (List Byte)) : PlatformM Unit := forM reads turn

section Runs

variable {p p' : DefaultPlatform} {turns : List Turn}

/-- The events of some turns. -/
abbrev trace (turns : List Turn) : List PlatformEvent := turns.flatMap Turn.events

/-- Turns that return make events. -/
theorem takes_of_run {reads : List (List Byte)} (hr : (runPlatform reads).run p = .ok () p') :
    ∃ turns, turns.map Turn.read = reads ∧ Steps Takes p turns p' := by
  induction reads generalizing p with
  | nil =>
      cases hr
      exact ⟨[], rfl, .nil _⟩
  | cons read reads ih =>
      rw [runPlatform, List.forM_cons, EStateM.run_bind] at hr
      split at hr
      · rename_i p₁ hturn
        obtain ⟨events, heffect⟩ := turn_effect hturn
        obtain ⟨turns, hreads, hturns⟩ := ih hr
        refine ⟨⟨read, events⟩ :: turns, ?_, (Steps.one ⟨hturn, heffect⟩).append hturns⟩
        rw [List.map_cons, hreads]
      · cases hr

/-- A run goes by the events of its turns, and records them in that order. -/
theorem steps_of_turns (h : Steps Takes p turns p') :
    Steps PlatformStep p.sysBus (trace turns) p'.sysBus ∧
      p'.log = p.log ++ (trace turns).filterMap PlatformEvent.record := by
  constructor
  · obtain ⟨b, hrun, rfl⟩ := h.refine (R := fun p b => p.sysBus = b) (g := Turn.events)
      (fun p t p' b heq ht => ⟨p'.sysBus, heq ▸ ht.effect.steps, rfl⟩) rfl
    exact hrun
  · induction h with
    | nil => simp
    | snoc _ ht ih =>
        rw [ht.effect.records, ih, trace, trace, List.flatMap_append, List.filterMap_append,
          List.append_assoc, List.flatMap_singleton]

/-- `p` is reached by some turns from what the constructor leaves, with an image that fits in
RAM. -/
inductive Reaches (memData : Nat → Byte) (beyond : Nat → List Byte) (bin_data : List Byte)
    (turns : List Turn) (p : DefaultPlatform) : Prop where
  | mk {storage : HartId → Hart} {p₀ : DefaultPlatform} (hsize : bin_data.length ≤ 0x100000000)
      (hbuilt : (construct bin_data).run (instances storage memData beyond) = .ok () p₀)
      (hturns : Steps Takes p₀ turns p)

variable {memData : Nat → Byte} {beyond : Nat → List Byte} {bin_data : List Byte}

/-- A turn leaves the map as it is. -/
theorem Takes.laid {t : Turn} (h : Laid allDevs p.sysBus) (ht : Takes p t p') :
    Laid allDevs p'.sysBus :=
  ht.effect.steps.invariant (fun _ _ _ _ h he => h.step he) h

/-- On every platform that is reached the devices are where the map has them. -/
theorem Reaches.laid (h : Reaches memData beyond bin_data turns p) : Laid allDevs p.sysBus := by
  obtain ⟨hsize, hbuilt, hturns⟩ := h
  refine hturns.invariant (P := fun p => Laid allDevs p.sysBus) (fun _ _ _ _ h ht => ht.laid h) ?_
  exact ((construct_built hsize).ok hbuilt).stage.laid

/-- Every event of a run is a step of the bus. -/
theorem Reaches.event (h : Reaches memData beyond bin_data turns p) {e : PlatformEvent}
    (he : e ∈ trace turns) : ∃ b b', PlatformStep b e b' := by
  obtain ⟨hsize, hbuilt, hturns⟩ := h
  exact (steps_of_turns hturns).1.mem he

/-- What the constructor leaves takes the turns. -/
theorem Reaches.start (h : Reaches memData beyond bin_data turns p) :
    ∃ p₀, Reaches memData beyond bin_data [] p₀ ∧ Steps Takes p₀ turns p :=
  let ⟨hsize, hbuilt, hturns⟩ := h
  ⟨_, ⟨hsize, hbuilt, .nil _⟩, hturns⟩

theorem Reaches.append {turns' : List Turn} (h : Reaches memData beyond bin_data turns p)
    (hturns : Steps Takes p turns' p') : Reaches memData beyond bin_data (turns ++ turns') p' :=
  let ⟨hsize, hbuilt, hbefore⟩ := h
  ⟨hsize, hbuilt, hbefore.append hturns⟩

/-- The last turn of a run. -/
theorem Reaches.last (h : Reaches memData beyond bin_data turns p) (hne : turns ≠ []) :
    ∃ turns' t p', turns = turns' ++ [t] ∧ Reaches memData beyond bin_data turns' p' ∧
      Takes p' t p := by
  obtain ⟨hsize, hbuilt, hturns⟩ := h
  cases hturns with
  | nil => exact absurd rfl hne
  | snoc hturns ht => exact ⟨_, _, _, rfl, ⟨hsize, hbuilt, hturns⟩, ht⟩

variable (memData beyond bin_data) in
/-- A platform is reached where the image and some turns return. -/
theorem exists_reaches (storage : HartId → Hart) (reads : List (List Byte))
    (q : DefaultPlatform → Bool) (hsize : bin_data.length ≤ 0x100000000)
    (hok : (match (do construct bin_data; runPlatform reads).run
      (instances storage memData beyond) with
        | .ok _ p => q p
        | .error _ _ => false) = true) :
    ∃ turns p, turns.map Turn.read = reads ∧ q p = true ∧
      Reaches memData beyond bin_data turns p := by
  rw [EStateM.run_bind] at hok
  split at hok
  · rename_i p hrun
    split at hrun
    · rename_i p₀ hbuilt
      obtain ⟨turns, hreads, hturns⟩ := takes_of_run hrun
      exact ⟨turns, p, hreads, hok, hsize, hbuilt, hturns⟩
    · cases hrun
  · cases hok

/-- In every state of the platform the bus routes by the memory map. -/
theorem memory_map (h : Reaches memData beyond bin_data turns p) (addr : Word) :
    (p.sysBus.findDevAccordingToAddr addr).1 = deviceAt addr :=
  h.laid.findDev addr

/-- `j .` at the start of RAM. -/
def loopImage : List Byte := [0x6f, 0x00, 0x00, 0x00]

/-- Both harts run it, and each has fetched. -/
theorem exists_loop :
    ∃ turns p, turns.map Turn.read = [[], []] ∧
      p.log.map Prod.fst = [.core0, .core1, .core0, .core1] ∧
      Reaches (fun _ => 0) (fun _ => []) loopImage turns p := by
  obtain ⟨turns, p, hreads, hq, h⟩ := exists_reaches (fun _ => 0) (fun _ => []) loopImage
    (fun _ => ⟨default, .construct default⟩) [[], []]
    (fun p => p.log.map Prod.fst == [.core0, .core1, .core0, .core1]) (by decide)
    (by decide +kernel)
  exact ⟨turns, p, hreads, eq_of_beq hq, h⟩

theorem memory_map_loop :
    ∃ turns p, Reaches (fun _ => 0) (fun _ => []) loopImage turns p ∧
      turns.map Turn.read = [[], []] ∧
        (p.sysBus.findDevAccordingToAddr 0x60100004).1 = some uartlite := by
  obtain ⟨turns, p, hreads, -, h⟩ := exists_loop
  exact ⟨turns, p, h, hreads, memory_map h 0x60100004⟩

/-- The log of the harts is the record of their accesses. -/
theorem Reaches.log (h : Reaches memData beyond bin_data turns p) :
    p.log = (trace turns).filterMap PlatformEvent.record := by
  obtain ⟨hsize, hbuilt, hturns⟩ := h
  rw [(steps_of_turns hturns).2, ((construct_built hsize).ok hbuilt).log, List.nil_append]

/-- The accesses of a device are steps of the bus, and in the log. -/
theorem Reaches.access_log (h : Reaches memData beyond bin_data turns p) {k : DevHandle}
    {a : DevEvent} (ha : .access a ∈ (trace turns).filterMap (PlatformEvent.concerns k)) :
    ∃ (hart : HartId) (e : BusEvent), a = e.forDev (regionOf k).1 ∧ deviceAt e.addr = some k ∧
      (∃ b b' : MEmuMMIOBus PlatformDev, BusStep b e b') ∧ (hart, e.access) ∈ p.log := by
  obtain ⟨event, hevent, hconcerns⟩ := List.mem_filterMap.mp ha
  obtain ⟨b, b', hstep⟩ := h.event hevent
  cases hstep with
  | call hr =>
      rw [PlatformEvent.concerns] at hconcerns
      split at hconcerns <;> cases hconcerns
  | @access _ hart e he =>
      obtain ⟨hat, heq⟩ := PlatformEvent.concerns_access.mp hconcerns
      cases heq
      refine ⟨hart, e, rfl, hat, ⟨b, b', he⟩, ?_⟩
      rw [h.log]
      exact List.mem_filterMap.mpr ⟨_, hevent, rfl⟩

/-- The events that concern a device are a run of it. -/
theorem devices_steps (h : Reaches memData beyond bin_data turns p) (k : DevHandle) :
    Steps DevGoes (builtDevs memData beyond bin_data k)
      ((trace turns).filterMap (PlatformEvent.concerns k)) (p.sysBus.obj k).dev := by
  obtain ⟨hsize, hbuilt, hturns⟩ := h
  have hb := (construct_built hsize).ok hbuilt
  rw [← hb.stage.dev k]
  exact steps_project hb.stage.laid (steps_of_turns hturns).1 k

/-- A run of the platform is a run of each device by the events that concern it, and the log of
the harts is the record of their accesses. -/
theorem devices_project (h : Reaches memData beyond bin_data turns p) :
    p.log = (trace turns).filterMap PlatformEvent.record ∧
      ∀ k, Steps DevGoes (builtDevs memData beyond bin_data k)
        ((trace turns).filterMap (PlatformEvent.concerns k)) (p.sysBus.obj k).dev :=
  ⟨h.log, devices_steps h⟩

theorem devices_project_loop :
    ∃ turns p, Reaches (fun _ => 0) (fun _ => []) loopImage turns p ∧ p.log.length = 4 ∧
      p.log = (trace turns).filterMap PlatformEvent.record ∧
      ∀ k, Steps DevGoes (builtDevs (fun _ => 0) (fun _ => []) loopImage k)
        ((trace turns).filterMap (PlatformEvent.concerns k)) (p.sysBus.obj k).dev := by
  obtain ⟨turns, p, -, hlog, h⟩ := exists_loop
  refine ⟨turns, p, h, ?_, devices_project h⟩
  exact (List.length_map _).symm.trans (congrArg List.length hlog)

end Runs

end DefaultPlatform

end MEmu
