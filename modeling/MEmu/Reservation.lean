import MEmu.StepEffect
import MEmu.Routing

/-!
# Reservations on a platform of two harts

The platform steps its harts in any order over one bus, and records who made which
access.  A reservation is a field of the hart's own MMU: a store-conditional that
succeeds has had one since the last load-reserved (`stepCoreAPI_reservation`), but
a store by the other hart does not drop it.  So atomicity holds in the runs whose
steps keep off the range that the other hart has reserved, and the source has no
more than that.
-/

namespace MEmu

open Run (Sat)

/-! ## The accesses of one step -/

section Step

variable {β : Type} [MMIOBus β]

/-- What the accesses of a run say of the reservation: one is made with a
load-reserved, and a store-conditional that reaches the bus has one from before. -/
structure ReservationTrace (s s' : MMUSys β) (new : List BusAccess) : Prop where
  log : s'.busLog = s.busLog ++ new
  reserved : s'.mmu.lr_valid = true → s.mmu.lr_valid = true ∨ ∃ a ∈ new, a.kind = .loadReserved
  conditional : ∀ a ∈ new, a.kind = .storeConditional →
    s.mmu.lr_valid = true ∧ ∀ a' ∈ new, a'.kind ≠ .loadReserved

theorem Quiet.reservationTrace {s s' : MMUSys β} (h : Quiet s s') :
    ∃ new, ReservationTrace s s' new := by
  obtain ⟨new, hlog, hnew⟩ := h.log
  refine ⟨new, hlog, fun hv => .inl (h.lr_valid ▸ hv), fun a ha hk => ?_⟩
  have := hnew a ha
  rw [hk] at this
  cases this

/-- What is quiet before a trace does not show in it. -/
theorem ReservationTrace.after_quiet {s s₁ s' : MMUSys β} {new : List BusAccess}
    (h : Quiet s s₁) (h' : ReservationTrace s₁ s' new) : ∃ new, ReservationTrace s s' new := by
  obtain ⟨old, hlog, hold⟩ := h.log
  have hkind : ∀ a ∈ old, a.kind ≠ .loadReserved ∧ a.kind ≠ .storeConditional := by
    intro a ha
    have := hold a ha
    refine ⟨fun hk => ?_, fun hk => ?_⟩ <;> rw [hk] at this <;> cases this
  refine ⟨old ++ new, ?_, fun hv => ?_, fun a ha hk => ?_⟩
  · rw [h'.log, hlog, List.append_assoc]
  · rcases h'.reserved hv with hv | ⟨a, ha, hk⟩
    · exact .inl (h.lr_valid ▸ hv)
    · exact .inr ⟨a, List.mem_append_right _ ha, hk⟩
  · rcases List.mem_append.mp ha with ha | ha
    · exact absurd hk (hkind a ha).2
    · obtain ⟨hv, hno⟩ := h'.conditional a ha hk
      refine ⟨h.lr_valid ▸ hv, fun a' ha' => ?_⟩
      exact (List.mem_append.mp ha').elim (fun ho => (hkind a' ho).1) (hno a')

omit [MMIOBus β] in
theorem MemOp.Traced.reservationTrace {op : MemOp} {paddr : Word} {s s' : MMUSys β}
    {new : List BusAccess} (h : op.Traced paddr s s' new) : ReservationTrace s s' new := by
  refine ⟨h.log, h.reserved, fun a ha hk => ⟨h.conditional a ha hk, fun a' ha' hk' => ?_⟩⟩
  have hsc := (h.made a ha).1
  have hlr := (h.made a' ha').1
  rw [hk] at hsc
  rw [hk'] at hlr
  cases op <;> simp [MemOp.kinds] at hsc hlr

theorem perform_reservationTrace (env : MMUEnv) (op : MemOp) (s : MMUSys β) :
    Sat s (op.perform env) (fun _ s' => ∃ new, ReservationTrace s s' new)
      (fun _ s' => ∃ new, ReservationTrace s s' new) := by
  have haccess (bare : Bool) (paddr : Word) {s₁ : MMUSys β} (h : Quiet s s₁) :
      Sat s₁ (op.access env bare paddr) (fun _ s' => ∃ new, ReservationTrace s s' new)
        (fun _ s' => ∃ new, ReservationTrace s s' new) :=
    (MemOp.access_traced env bare paddr op s₁).mono
      (fun _ _ ⟨_, ht⟩ => ReservationTrace.after_quiet h ht.reservationTrace)
      fun _ _ ⟨_, ht⟩ => ReservationTrace.after_quiet h ht.reservationTrace
  refine MemOp.perform_sat (fun _ => ?_) (Quiet.refl s).reservationTrace
    (fun _ _ _ h _ => Quiet.reservationTrace h) (fun _ _ h _ => Quiet.reservationTrace h)
    (fun _ => haccess true _ (.refl s)) fun _ _ _ h _ => haccess false _ h
  exact (MMUSys.getTLBEntry_quiet env op.addr s).mono (fun _ _ h => h) fun _ _ h =>
    Quiet.reservationTrace h

/-- The trace of a step. -/
theorem stepCoreAPI_reservation {m m' : Machine β} {fb : FuncReturnFeedback}
    (h : stepCoreAPI.run m = .ok fb m') :
    ∃ new, ReservationTrace m.clearLogs.mem m'.mem new := by
  have hmem := stepCoreAPI_mem m
  rw [h, show (Run.final (EStateM.Result.ok fb m')).mem = m'.mem from rfl] at hmem
  rcases hmem with ⟨e, he⟩ | ⟨s, hs, hexec⟩
  · exact ((MMUSys.vaddrInstFetch_quiet _ _ _ _ _).error he).reservationTrace
  have hquiet := hs.quiet
  generalize m'.mem = s' at hexec ⊢
  cases hexec with
  | idle => exact hquiet.reservationTrace
  | access op rd hop =>
      obtain ⟨new, ht⟩ := (perform_reservationTrace m.begun.mmuEnv op s).final
      exact ReservationTrace.after_quiet hquiet ht
  | flush vaddr asid => exact Quiet.reservationTrace ⟨hquiet.reservation, hquiet.reads, hquiet.log⟩

end Step

/-! ## Logs of two harts -/

/-- The harts of the platform. -/
inductive HartId where
  | core0
  | core1
deriving DecidableEq

namespace BusAccess

/-- The byte at `addr` is among those accessed. -/
def Covers (a : BusAccess) (addr : Word) : Prop :=
  ∃ i < a.size.toNat, addr = a.addr + BitVec.ofNat 64 i

/-- Some byte is accessed by both. -/
def Overlaps (a a' : BusAccess) : Prop := ∃ addr, a.Covers addr ∧ a'.Covers addr

/-- The access has written. -/
def Wrote (a : BusAccess) : Prop := a.kind.isWrite = true ∧ a.done = true

instance (a : BusAccess) : Decidable a.Wrote := inferInstanceAs (Decidable (_ ∧ _))

end BusAccess

/-- The last load-reserved of `A` in the log read `r`, and `mid` came after it. -/
structure SinceReserved (A : HartId) (log : List (HartId × BusAccess)) (r : BusAccess)
    (mid : List (HartId × BusAccess)) : Prop where
  kind : r.kind = .loadReserved
  split : ∃ pre, log = pre ++ (A, r) :: mid
  last : ∀ a, (A, a) ∈ mid → a.kind ≠ .loadReserved

/-- Since the last load-reserved of `A`, `B` has written no byte that it read. -/
def Untouched (A B : HartId) (log : List (HartId × BusAccess)) : Prop :=
  ∀ r mid, SinceReserved A log r mid → ∀ w, (B, w) ∈ mid → w.Wrote → ¬w.Overlaps r

/-- Each store-conditional of `A` that was performed came when `B` had written no
byte that the last load-reserved of `A` had read. -/
def Atomic (A B : HartId) (log : List (HartId × BusAccess)) : Prop :=
  ∀ pre sc post, log = pre ++ (A, sc) :: post → sc.kind = .storeConditional → sc.done = true →
    Untouched A B pre

section Logs

variable {A B : HartId} {log new mid : List (HartId × BusAccess)} {r : BusAccess}

/-- A log that goes on without a load-reserved of `A`. -/
theorem SinceReserved.of_append (h : SinceReserved A (log ++ new) r mid)
    (hnew : ∀ a, (A, a) ∈ new → a.kind ≠ .loadReserved) :
    ∃ old, mid = old ++ new ∧ SinceReserved A log r old := by
  obtain ⟨pre, hsplit⟩ := h.split
  rcases List.append_eq_append_iff.mp hsplit with ⟨before, -, hnew'⟩ | ⟨rest, hlog, hmid⟩
  · refine absurd h.kind (hnew r ?_)
    rw [hnew']
    exact List.mem_append_right _ List.mem_cons_self
  · cases rest with
    | nil =>
        refine absurd h.kind (hnew r ?_)
        rw [← List.nil_append new, ← hmid]
        exact List.mem_cons_self
    | cons e old =>
        obtain ⟨he, htail⟩ := List.cons.inj hmid
        subst he
        exact ⟨old, htail, h.kind, ⟨pre, hlog⟩, fun a ha =>
          h.last a (htail ▸ List.mem_append_left _ ha)⟩

/-- A log that goes on with a load-reserved of `A`: what came after it is new. -/
theorem SinceReserved.subset_new (h : SinceReserved A (log ++ new) r mid) {a : BusAccess}
    (ha : (A, a) ∈ new) (hk : a.kind = .loadReserved) : mid ⊆ new := by
  obtain ⟨pre, hsplit⟩ := h.split
  rcases List.append_eq_append_iff.mp hsplit with ⟨before, -, hnew⟩ | ⟨rest, hlog, hmid⟩
  · rw [hnew]
    exact fun e he => List.mem_append_right _ (List.mem_cons_of_mem _ he)
  · cases rest with
    | nil =>
        rw [← List.nil_append new, ← hmid]
        exact fun e he => List.mem_cons_of_mem _ he
    | cons e old =>
        have htail := (List.cons.inj hmid).2
        exact absurd hk (h.last a (htail ▸ List.mem_append_right _ ha))

theorem Untouched.append (h : Untouched A B log)
    (hlr : ∀ a, (A, a) ∈ new → a.kind ≠ .loadReserved)
    (hw : ∀ r mid, SinceReserved A log r mid → ∀ w, (B, w) ∈ new → w.Wrote → ¬w.Overlaps r) :
    Untouched A B (log ++ new) := by
  intro r mid hs w hmem hwrote
  obtain ⟨old, rfl, hold⟩ := hs.of_append hlr
  rcases List.mem_append.mp hmem with hmem | hmem
  · exact h r old hold w hmem hwrote
  · exact hw r old hold w hmem hwrote

theorem Untouched.of_reserved {a : BusAccess} (ha : (A, a) ∈ new) (hk : a.kind = .loadReserved)
    (hB : ∀ w, (B, w) ∉ new) : Untouched A B (log ++ new) :=
  fun _ _ hs w hmem _ => absurd (hs.subset_new ha hk hmem) (hB w)

theorem Atomic.append (h : Atomic A B log)
    (hnew : ∀ pre sc post, new = pre ++ (A, sc) :: post → sc.kind = .storeConditional →
      Untouched A B (log ++ pre)) : Atomic A B (log ++ new) := by
  intro pre sc post hsplit hk hdone
  rcases List.append_eq_append_iff.mp hsplit with ⟨before, hpre, hnew'⟩ | ⟨rest, hlog, hpost⟩
  · rw [hpre]
    exact hnew before sc post hnew' hk
  · cases rest with
    | nil =>
        have := hnew [] sc post (by rw [List.nil_append, ← List.nil_append new, ← hpost]) hk
        rw [List.append_nil] at hlog this
        rwa [← hlog]
    | cons e old =>
        rw [← (List.cons.inj hpost).1] at hlog
        exact h pre sc old hlog hk hdone

end Logs

/-! ## The platform -/

/-- A core with its MMU. -/
structure Hart where
  core : RV64Core
  mmu : RV64SV39MMU

/-- `DefaultPlatform`: two harts on one bus, and a record of who accessed what. -/
structure Platform (β : Type) where
  hart : HartId → Hart
  sysBus : β
  log : List (HartId × BusAccess)

namespace Platform

variable {β : Type}

/-- What a step of hart `h` starts from, with the interrupt lines as they are then. -/
def machine (p : Platform β) (h : HartId) (lines : IntStatus) : Machine β :=
  { core := { (p.hart h).core with intStatus := lines }
    mem := { mmu := (p.hart h).mmu, sysBus := p.sysBus, busLog := [] } }

/-- The platform after a step of `h` that ends in `m`. -/
def after (p : Platform β) (h : HartId) (m : Machine β) : Platform β :=
  { hart := fun k => if k = h then { core := m.core, mmu := m.mem.mmu } else p.hart k
    sysBus := m.mem.sysBus
    log := p.log ++ m.mem.busLog.map fun a => (h, a) }

end Platform

section Run

variable {β : Type} [MMIOBus β]

/-- The platforms reached by steps of the harts in any order, where `P` holds of a
step of a hart that ends in a machine.  Between two steps the devices change at
will. -/
inductive PlatformRun (P : Platform β → HartId → Machine β → Prop) : Platform β → Prop where
  | start (hart : HartId → Hart) (sysBus : β) : PlatformRun P ⟨hart, sysBus, []⟩
  | step {p : Platform β} (hp : PlatformRun P p) (h : HartId) (lines : IntStatus)
      {fb : FuncReturnFeedback} {m : Machine β} (hP : P p h m)
      (hr : stepCoreAPI.run (p.machine h lines) = .ok fb m) : PlatformRun P (p.after h m)
  | devices {p : Platform β} (hp : PlatformRun P p) (sysBus : β) :
      PlatformRun P { p with sysBus := sysBus }

/-- The step of `h` writes nothing that the other hart has reserved. -/
def KeepsReserved (p : Platform β) (h : HartId) (m : Machine β) : Prop :=
  ∀ k, k ≠ h → (p.hart k).mmu.lr_valid = true → ∀ r mid, SinceReserved k p.log r mid →
    ∀ w ∈ m.mem.busLog, w.Wrote → ¬w.Overlaps r

/-- The invariant of a run: atomicity so far, and a hart that has a reservation has
what it reserved untouched. -/
structure AtomicInv (A B : HartId) (p : Platform β) : Prop where
  atomic : Atomic A B p.log
  untouched : (p.hart A).mmu.lr_valid = true → Untouched A B p.log

omit [MMIOBus β] in
theorem mem_map_hart {h k : HartId} {a : BusAccess} {log : List BusAccess} :
    (k, a) ∈ log.map (fun a => (h, a)) ↔ h = k ∧ a ∈ log := by
  rw [List.mem_map]
  constructor
  · rintro ⟨a', ha', heq⟩
    cases heq
    exact ⟨rfl, ha'⟩
  · rintro ⟨rfl, ha⟩
    exact ⟨a, ha, rfl⟩

/-- A step of `A` itself: its store-conditional had a reservation, and no load-reserved is in
the same step. -/
theorem AtomicInv.step_self {A B : HartId} (hAB : A ≠ B) {p : Platform β} (hp : AtomicInv A B p)
    {lines : IntStatus} {fb : FuncReturnFeedback} {m : Machine β}
    (hr : stepCoreAPI.run (p.machine A lines) = .ok fb m) : AtomicInv A B (p.after A m) := by
  obtain ⟨new, htrace⟩ := stepCoreAPI_reservation hr
  have hlog : m.mem.busLog = new := htrace.log
  have hvalid : (p.machine A lines).clearLogs.mem.mmu.lr_valid = (p.hart A).mmu.lr_valid := rfl
  have hafter : ((p.after A m).hart A).mmu = m.mem.mmu := by
    simp only [Platform.after, if_pos]
  have hB (log : List BusAccess) : ∀ w, (B, w) ∉ log.map fun a => (A, a) := fun w hw =>
    hAB (mem_map_hart.mp hw).1
  refine ⟨hp.atomic.append fun pre sc post hsplit hk => ?_, fun hv => ?_⟩
  · have hmem : sc ∈ new := hlog ▸ (mem_map_hart.mp (hsplit ▸ List.mem_append_right pre
      List.mem_cons_self : (A, sc) ∈ m.mem.busLog.map fun a => (A, a))).2
    obtain ⟨hv, hno⟩ := htrace.conditional sc hmem hk
    have hpre : ∀ e ∈ pre, e ∈ m.mem.busLog.map fun a => (A, a) := fun e he =>
      hsplit ▸ List.mem_append_left _ he
    refine (hp.untouched (hvalid ▸ hv)).append (fun a ha => ?_) fun _ _ _ w hw => ?_
    · exact hno a (hlog ▸ (mem_map_hart.mp (hpre _ ha)).2)
    · exact absurd (hpre _ hw) (hB _ w)
  · rw [hafter] at hv
    by_cases hlr : ∃ a ∈ new, a.kind = .loadReserved
    · obtain ⟨a, ha, hk⟩ := hlr
      exact .of_reserved (mem_map_hart.mpr ⟨rfl, hlog ▸ ha⟩) hk (hB _)
    · have hv := (htrace.reserved hv).resolve_right hlr
      refine (hp.untouched (hvalid ▸ hv)).append (fun a ha hk => ?_) fun _ _ _ w hw =>
        absurd hw (hB _ w)
      exact hlr ⟨a, hlog ▸ (mem_map_hart.mp ha).2, hk⟩

omit [MMIOBus β] in
/-- A step of the other hart. -/
theorem AtomicInv.step_other {A B : HartId} (hAB : A ≠ B) {p : Platform β}
    (hp : AtomicInv A B p) {m : Machine β} (hP : KeepsReserved p B m) :
    AtomicInv A B (p.after B m) := by
  have hA (log : List BusAccess) : ∀ a, (A, a) ∉ log.map fun a => (B, a) := fun a ha =>
    hAB (mem_map_hart.mp ha).1.symm
  have hafter : (p.after B m).hart A = p.hart A := if_neg hAB
  refine ⟨hp.atomic.append fun pre sc post hsplit _ => ?_, fun hv => ?_⟩
  · refine absurd ?_ (hA m.mem.busLog sc)
    rw [hsplit]
    exact List.mem_append_right _ List.mem_cons_self
  · rw [hafter] at hv
    refine (hp.untouched hv).append (fun a ha => absurd ha (hA _ a)) fun r mid hs w hw => ?_
    exact hP A hAB hv r mid hs w (mem_map_hart.mp hw).2

/-- In a run whose steps write nothing that the other hart has reserved, a
store-conditional that is performed finds what was reserved as it was. -/
theorem lr_sc_atomic {p : Platform β} (hp : PlatformRun KeepsReserved p) {A B : HartId}
    (hAB : A ≠ B) : Atomic A B p.log := by
  have hinv : AtomicInv A B p := by
    induction hp with
    | start hart sysBus =>
        refine ⟨fun pre sc post h => ?_, fun _ r mid h => ?_⟩
        · exact absurd h.symm (by simp)
        · obtain ⟨pre, hsplit⟩ := h.split
          exact absurd hsplit.symm (by simp)
    | step hp h lines hP hr ih =>
        by_cases hA : h = A
        · subst hA
          exact ih.step_self hAB hr
        · obtain rfl : h = B := by
            cases h <;> cases A <;> cases B <;> first | rfl | exact absurd rfl hA | exact absurd rfl hAB
          exact ih.step_other hAB hP
    | devices hp sysBus ih => exact ⟨ih.atomic, ih.untouched⟩
  exact hinv.atomic

end Run

/-! ## Two programs -/

/-- A core at `pc`, with 16 in `x2`. -/
def coreAt (pc : Word) : Hart :=
  { core :=
      { (default : RV64Core) with
        GPR := fun r => if r = 2 then 16 else 0
        currentProgramCounter := pc }
    mmu := .construct default }

/-- `lr.w x1, (x2); sc.w x1, x0, (x2)` for `core0` and `inst` for `core1`, with a
word of data at 16. -/
def lrScAgainst (inst : List Byte) : Platform (MEmuMMIOBus MMIOMem) :=
  { hart := fun h => match h with
      | .core0 => coreAt 0
      | .core1 => coreAt 8
    sysBus := MMIOMem.busOfBytes
      ([0xaf, 0x20, 0x01, 0x10, 0xaf, 0x20, 0x01, 0x18] ++ inst ++ List.replicate 12 0)
    log := [] }

/-- The end of one more step of `h`. -/
def Platform.stepEnd (p : Platform (MEmuMMIOBus MMIOMem)) (h : HartId) :
    Machine (MEmuMMIOBus MMIOMem) :=
  Run.final (stepCoreAPI.run (p.machine h default))

theorem PlatformRun.stepEnd {P : Platform (MEmuMMIOBus MMIOMem) → HartId → Machine _ → Prop}
    {p : Platform (MEmuMMIOBus MMIOMem)} (hp : PlatformRun P p) (h : HartId)
    (hr : stepCoreAPI.run (p.machine h default) = .ok .ok (p.stepEnd h))
    (hP : P p h (p.stepEnd h)) : PlatformRun P (p.after h (p.stepEnd h)) :=
  .step hp h default hP hr

theorem KeepsReserved.of_noReservation {p : Platform (MEmuMMIOBus MMIOMem)} {h : HartId}
    {m : Machine (MEmuMMIOBus MMIOMem)} (hv : ∀ k, k ≠ h → (p.hart k).mmu.lr_valid = false) :
    KeepsReserved p h m := fun k hk hkv => by
  rw [hv k hk] at hkv
  cases hkv

/-- `core0` reserves the word, `core1` makes its step, and `core0` stores. -/
def lrScRun (p : Platform (MEmuMMIOBus MMIOMem)) : Platform (MEmuMMIOBus MMIOMem) :=
  let p := p.after .core0 (p.stepEnd .core0)
  let p := p.after .core1 (p.stepEnd .core1)
  p.after .core0 (p.stepEnd .core0)

/-- `core1` does `c.nop`. -/
def nopBetween : Platform (MEmuMMIOBus MMIOMem) := lrScAgainst [0x01, 0x00, 0x00, 0x00]

theorem lr_sc_atomic_nop :
    (.core0, ⟨.storeConditional, 16, 4, true⟩) ∈ (lrScRun nopBetween).log ∧
      Atomic .core0 .core1 (lrScRun nopBetween).log := by
  have hrun : PlatformRun KeepsReserved (lrScRun nopBetween) := by
    refine (((PlatformRun.start _ _).stepEnd .core0 rfl ?_).stepEnd .core1 rfl ?_).stepEnd .core0 rfl ?_
    · exact .of_noReservation fun k hk => by cases k <;> rfl
    · have hwrites : ∀ w ∈ (((nopBetween.after .core0 (nopBetween.stepEnd .core0)).stepEnd
          .core1).mem.busLog), ¬w.Wrote := by
        decide +kernel
      exact fun _ _ _ _ _ _ w hw hwrote => absurd hwrote (hwrites w hw)
    · refine .of_noReservation fun k hk => ?_
      cases k with
      | core0 => exact absurd rfl hk
      | core1 => rfl
  exact ⟨by decide +kernel, lr_sc_atomic hrun (by decide)⟩

/-- `core1` stores to the word, with `sw x0, 0(x2)`. -/
def storeBetween : Platform (MEmuMMIOBus MMIOMem) := lrScAgainst [0x23, 0x20, 0x01, 0x00]

/-- The store-conditional is performed all the same. -/
theorem store_between_not_atomic :
    ¬ ∀ p : Platform (MEmuMMIOBus MMIOMem), PlatformRun (fun _ _ _ => True) p →
      ∀ A B, A ≠ B → Atomic A B p.log := by
  intro hall
  have hlog : (lrScRun storeBetween).log =
      [(.core0, ⟨.fetch, 0, 4, true⟩), (.core0, ⟨.loadReserved, 16, 4, true⟩),
        (.core1, ⟨.fetch, 8, 4, true⟩), (.core1, ⟨.store, 16, 4, true⟩),
        (.core0, ⟨.fetch, 4, 4, true⟩), (.core0, ⟨.storeConditional, 16, 4, true⟩)] := by
    decide +kernel
  have hrun : PlatformRun (fun _ _ _ => True) (lrScRun storeBetween) :=
    (((PlatformRun.start _ _).stepEnd .core0 rfl trivial).stepEnd .core1 rfl trivial).stepEnd
      .core0 rfl trivial
  have h := hall _ hrun .core0 .core1 (by decide)
  rw [hlog] at h
  have hsince : SinceReserved .core0
      [(.core0, ⟨.fetch, 0, 4, true⟩), (.core0, ⟨.loadReserved, 16, 4, true⟩),
        (.core1, ⟨.fetch, 8, 4, true⟩), (.core1, ⟨.store, 16, 4, true⟩),
        (.core0, ⟨.fetch, 4, 4, true⟩)] ⟨.loadReserved, 16, 4, true⟩
      [(.core1, ⟨.fetch, 8, 4, true⟩), (.core1, ⟨.store, 16, 4, true⟩),
        (.core0, ⟨.fetch, 4, 4, true⟩)] := by
    refine ⟨rfl, ⟨[(.core0, ⟨.fetch, 0, 4, true⟩)], rfl⟩, fun a ha => ?_⟩
    simp only [List.mem_cons, Prod.mk.injEq, reduceCtorEq, false_and, true_and, false_or,
      List.not_mem_nil, or_false] at ha
    subst ha
    decide
  exact h _ _ [] rfl rfl rfl _ _ hsince ⟨.store, 16, 4, true⟩ (by decide) (by decide)
    ⟨16, ⟨0, by decide, rfl⟩, 0, by decide, rfl⟩

end MEmu
