import MEmu.StepEffect
import MEmu.Registration
import MEmu.Lib.Labelled

/-!
# What happens on the bus

A step records each of its bus accesses.  `BusEvent` is such an access with what went
over the bus, and a completed step is a run of the bus by events whose record is the
log of the step: the bus changes by nothing else (`stepCoreAPI_busEvents`).

On the bus of the repository an event concerns one device, that which its address is
routed to, and leaves every other as it is (`dispatched_of_step`).
-/

namespace MEmu

open Labelled (Steps)
open Run (Sat Preserves)

/-! ## Events -/

/-- An access of the bus that has returned. -/
inductive BusEvent where
  | read (kind : AccessKind) (addr size : Word) (buffer : List Byte)
    (answer : FuncReturnFeedback × List Byte)
  | write (kind : AccessKind) (addr size : Word) (data : List Byte) (feedback : FuncReturnFeedback)

namespace BusEvent

/-- The record of the access. -/
def access : BusEvent → BusAccess
  | read kind addr size _ answer => ⟨kind, addr, size, decide (answer.1 = .ok)⟩
  | write kind addr size _ feedback => ⟨kind, addr, size, decide (feedback = .ok)⟩

def addr (e : BusEvent) : Word := e.access.addr

end BusEvent

section Steps

variable {β : Type} [MMIOBus β]

/-- The bus goes by one event. -/
inductive BusStep : β → BusEvent → β → Prop where
  | read {b b' : β} {kind : AccessKind} {addr size : Word} {buffer : List Byte}
      {answer : FuncReturnFeedback × List Byte} (hkind : kind.isWrite = false)
      (hr : (MMIOBus.paddrReadBuffer addr size buffer).run b = .ok answer b') :
      BusStep b (.read kind addr size buffer answer) b'
  | write {b b' : β} {kind : AccessKind} {addr size : Word} {data : List Byte}
      {feedback : FuncReturnFeedback} (hkind : kind.isWrite = true)
      (hr : (MMIOBus.paddrWriteBuffer addr size data).run b = .ok feedback b') :
      BusStep b (.write kind addr size data feedback) b'

/-- An event has one outcome. -/
theorem BusStep.unique {b b₁ b₂ : β} {e : BusEvent} (h : BusStep b e b₁) (h' : BusStep b e b₂) :
    b₁ = b₂ := by
  cases h with
  | read _ hr =>
      cases h' with
      | read _ hr' => exact (EStateM.Result.ok.inj (hr.symm.trans hr')).2
  | write _ hr =>
      cases h' with
      | write _ hr' => exact (EStateM.Result.ok.inj (hr.symm.trans hr')).2

/-- An access of at most a word, and not the write of an AMO. -/
structure BusEvent.Plain (e : BusEvent) : Prop where
  pos : 1 ≤ e.access.size.toNat
  le : e.access.size.toNat ≤ 8
  kind : e.access.kind ≠ .amoWrite

/-- The bus has gone by the events that were logged. -/
structure Logged (s s' : MMUSys β) (events : List BusEvent) : Prop where
  goes : Steps BusStep s.sysBus events s'.sysBus
  log : s'.busLog = s.busLog ++ events.map BusEvent.access

/-- The bus has gone by events, none of which is the write of an AMO. -/
def Accounted (s s' : MMUSys β) : Prop := ∃ events, Logged s s' events ∧ ∀ e ∈ events, e.Plain

theorem Accounted.refl (s : MMUSys β) : Accounted s s :=
  ⟨[], ⟨.nil _, by simp⟩, List.forall_mem_nil _⟩

variable {s s' : MMUSys β} {events : List BusEvent}

theorem Accounted.mmu (h : Accounted s s') (mmu : RV64SV39MMU) :
    Accounted s { s' with mmu := mmu } :=
  let ⟨events, hlogged, hplain⟩ := h
  ⟨events, ⟨hlogged.goes, hlogged.log⟩, hplain⟩

/-- One more event on a run that was logged. -/
theorem Logged.event {e : BusEvent} {b : β} (h : Logged s s' events)
    (he : BusStep s'.sysBus e b) (mmu : RV64SV39MMU) :
    Logged s { mmu := mmu, sysBus := b, busLog := s'.busLog ++ [e.access] } (events ++ [e]) := by
  refine ⟨h.goes.snoc he, ?_⟩
  simp [h.log]

/-- One more plain event on a run that was accounted for. -/
theorem Accounted.event {e : BusEvent} {b : β} (h : Accounted s s')
    (he : BusStep s'.sysBus e b) (hplain : e.Plain) (mmu : RV64SV39MMU) :
    Accounted s { mmu := mmu, sysBus := b, busLog := s'.busLog ++ [e.access] } :=
  let ⟨events, hlogged, hall⟩ := h
  ⟨events ++ [e], hlogged.event he mmu,
    List.forall_mem_append.mpr ⟨hall, List.forall_mem_singleton.mpr hplain⟩⟩

/-- The size of an access. -/
def AtMostWord (size : Word) : Prop := 1 ≤ size.toNat ∧ size.toNat ≤ 8

instance (size : Word) : Decidable (AtMostWord size) := inferInstanceAs (Decidable (_ ∧ _))

/-- A read of the bus is one plain event. -/
theorem busRead_accounted {kind : AccessKind} (hkind : kind.isWrite = false) {size : Word}
    (hsize : AtMostWord size) (addr : Word) (buffer : List Byte) :
    Preserves (Accounted s) (busRead kind addr size buffer) := by
  intro t ht
  refine busCall_sat (fun _ _ hr => ?_) fun _ _ _ => trivial
  refine ht.event (.read hkind hr) ⟨hsize.1, hsize.2, ?_⟩ t.mmu
  rintro rfl
  cases hkind

/-- A write of the bus is one plain event, unless it is that of an AMO. -/
theorem busWrite_accounted {kind : AccessKind} (hkind : kind.isWrite = true)
    (hamo : kind ≠ .amoWrite) {size : Word} (hsize : AtMostWord size) (addr : Word)
    (data : List Byte) : Preserves (Accounted s) (busWrite kind addr size data) := by
  intro t ht
  refine busCall_sat (fun _ _ hr => ?_) fun _ _ _ => trivial
  exact ht.event (.write hkind hr) ⟨hsize.1, hsize.2, hamo⟩ t.mmu

/-! ## The events of a step -/

/-- What only touches the MMU has no event. -/
theorem onMMU_accounted {α : Type} (x : EStateM Abort RV64SV39MMU α) :
    Preserves (Accounted s) (MMUSys.onMMU (β := β) x) := fun _ ht =>
  MMUSys.onMMU_sat (Sat.trivial.mono (fun _ mmu _ => ht.mmu mmu) fun _ _ _ => trivial)

theorem cassert_accounted (c : Prop) [Decidable c] (site : Abort) :
    Preserves (Accounted s) (cassert c site) :=
  .ite (.pure _) (.throw _)

namespace MMUSys

/-- The read of an entry is the one event of a level of the walk. -/
theorem readPTE_accounted (env : MMUEnv) (page_table_addr : Word) (vpn : BitVec 9) :
    Preserves (Accounted s) (readPTE env page_table_addr vpn) :=
  .bind (busRead_accounted rfl (by decide) _ _) fun _ =>
    .bind (cassert_accounted _ _) fun _ => .pure _

theorem pageTableWalk_accounted (env : MMUEnv) (vaddr : Word) :
    Preserves (Accounted s) (pageTableWalk env vaddr) := by
  refine .bind (readPTE_accounted env _ _) fun l2_pte => .ite (.pure _) (.ite (.pure _) ?_)
  refine .bind (readPTE_accounted env _ _) fun l1_pte => .ite (.pure _) (.ite (.pure _) ?_)
  exact .bind (readPTE_accounted env _ _) fun l0_pte => .ite (.pure _) (.pure _)

theorem getTLBEntry_accounted (env : MMUEnv) (vaddr : Word) :
    Preserves (Accounted s) (getTLBEntry env vaddr) := by
  refine .bind (cassert_accounted _ _) fun _ => .bind (onMMU_accounted _) fun r => ?_
  cases r with
  | some i => exact .pure _
  | none =>
      refine .ite (.pure _) (.bind (pageTableWalk_accounted env vaddr) fun leaf => ?_)
      cases leaf with
      | none => exact .pure _
      | some leaf => exact .bind (onMMU_accounted _) fun _ => .pure _

/-- A read of a value is the read of its bytes. -/
theorem readAt_accounted {kind : AccessKind} (hkind : kind.isWrite = false) {size : Word}
    (hsize : AtMostWord size) (addr : Word) (buffer : List Byte) :
    Preserves (Accounted s) (readAt kind addr size buffer) :=
  .bind (busRead_accounted hkind hsize addr buffer) fun _ => .pure _

theorem instFetchWhole_accounted (env : MMUEnv) {size : Word} (hsize : AtMostWord size)
    (begin_addr : Word) (buffer : List Byte) :
    Preserves (Accounted s) (instFetchWhole env begin_addr size buffer) := by
  refine .bind (cassert_accounted _ _) fun _ => .ite (readAt_accounted rfl hsize _ _) ?_
  refine .bind (fun t ht => ?_) fun r => ?_
  · exact pagedAddr_sat (fun _ => getTLBEntry_accounted env begin_addr t ht) (fun _ => ht)
      (fun _ h => h) (fun _ _ _ h _ => h) (fun _ _ _ _ => trivial) fun _ _ h _ => h
  · cases r with
    | error fault => exact .pure _
    | ok paddr => exact readAt_accounted rfl hsize _ _

theorem vaddrInstFetch_accounted (env : MMUEnv) (begin_addr : Word) (buffer : List Byte) :
    Preserves (Accounted s) (vaddrInstFetch env begin_addr 4 buffer) := by
  refine .ite (.bind (instFetchWhole_accounted env (by decide) _ _) fun r => ?_)
    (instFetchWhole_accounted env (by decide) _ _)
  exact .ite (.pure _) (.bind (instFetchWhole_accounted env (by decide) _ _) fun _ => .pure _)

end MMUSys

/-! ## The events of a data access -/

/-- The sizes that a load of the switch may have. -/
theorem loadCase_size {f : BitVec 3} {p : Word × Bool} (h : loadCase f = some p) :
    AtMostWord p.1 := by
  have hall : ∀ f, (loadCase f).all fun p => decide (AtMostWord p.1) := by decide
  have := hall f
  rwa [h, Option.all_some, decide_eq_true_eq] at this

/-- The sizes that a store of the switch may have. -/
theorem storeCase_size {f : BitVec 3} {size : Word} (h : storeCase f = some size) :
    AtMostWord size := by
  have hall : ∀ f, (storeCase f).all fun size => decide (AtMostWord size) := by decide
  have := hall f
  rwa [h, Option.all_some, decide_eq_true_eq] at this

/-- Every instruction accesses from one to eight bytes. -/
theorem memOpOf_size {inst : BitVec 32} {c : RV64Core} {op : MemOp} {rd : BitVec 5}
    (h : memOpOf inst c = some (op, rd)) : AtMostWord op.size := by
  unfold memOpOf at h
  split at h
  · unfold memOp16 at h
    split at h <;> cases h <;> exact of_decide_eq_true rfl
  unfold memOp32 at h
  split at h
  · obtain ⟨p, hp, heq⟩ := Option.map_eq_some_iff.mp h
    cases heq
    exact loadCase_size hp
  · obtain ⟨size, hp, heq⟩ := Option.map_eq_some_iff.mp h
    cases heq
    exact storeCase_size hp
  · unfold amoOp at h
    split at h
    · cases h
    rename_i hf
    have hsize : AtMostWord ((1 : Word) <<< (RVInst.funct3 inst).toNat) := by
      have hcases : RVInst.funct3 inst = 2 ∨ RVInst.funct3 inst = 3 := by
        by_contra hno
        exact hf ⟨fun h2 => hno (.inl h2), fun h3 => hno (.inr h3)⟩
      rcases hcases with h2 | h3
      · rw [h2]
        decide
      · rw [h3]
        decide
    dsimp only at h
    split at h
    · cases h
    · split at h <;> cases h
      exact hsize
    · cases h
      exact hsize
    · cases h
      exact hsize
  · cases h

/-- Every memory operation of an instruction is of a word at most. -/
theorem Machine.memOp_size {m : Machine β} {op : MemOp} {rd : BitVec 5}
    (h : m.memOp = some (op, rd)) : AtMostWord op.size := by
  unfold Machine.memOp at h
  split at h
  · exact memOpOf_size h
  · cases h

/-- The bytes that an AMO stores for those that it has read. -/
def AMOFunct.update (f : AMOFunct) (src size : Word) (old : List Byte) : Option (List Byte) :=
  (f.apply src (Bytes.extend true size.toNat old)).map (Bytes.ofWord size.toNat)

/-- What an AMO writes back is as long as what it has read. -/
theorem AMOFunct.length_update {f : AMOFunct} {src size : Word} {old data : List Byte}
    (h : f.update src size old = some data) : data.length = size.toNat := by
  obtain ⟨value, -, rfl⟩ := Option.map_eq_some_iff.mp h
  simp [Bytes.ofWord_eq]

/-- The events of an AMO that stores: after `own` it loads `old`, and right after that it stores
`data`, the result of its operation on `old`. -/
structure AmoEvents (f : AMOFunct) (src addr size : Word) (buffer old data : List Byte)
    (fb : FuncReturnFeedback) (own events : List BusEvent) : Prop where
  cut : events = own ++
    [.read .amoRead addr size buffer (.ok, old), .write .amoWrite addr size data fb]
  plain : ∀ e ∈ own, e.Plain
  word : AtMostWord size
  update : f.update src size old = some data

/-- The events of an AMO are of its own size. -/
theorem AmoEvents.atMostWord {f : AMOFunct} {src addr size : Word} {buffer old data : List Byte}
    {fb : FuncReturnFeedback} {own : List BusEvent}
    (h : AmoEvents f src addr size buffer old data fb own events) :
    ∀ e ∈ events, AtMostWord e.access.size := by
  obtain ⟨rfl, hplain, hsize, -⟩ := h
  refine List.forall_mem_append.mpr ⟨fun e he => ⟨(hplain e he).pos, (hplain e he).le⟩, ?_⟩
  exact List.forall_mem_cons.mpr ⟨hsize, List.forall_mem_singleton.mpr hsize⟩

/-- The bus has gone by the events of an operation that ends with `r`.  An AMO whose write goes
through ends with what it has loaded. -/
inductive Performed (s : MMUSys β) :
    MemOp → Except ExecFeedbackCode Word → MMUSys β → Prop where
  | plain {op : MemOp} {r : Except ExecFeedbackCode Word} {s' : MMUSys β} (h : Accounted s s') :
      Performed s op r s'
  | amo {f : AMOFunct} {va src addr size : Word} {buffer old data : List Byte}
      {fb : FuncReturnFeedback} {own events : List BusEvent}
      {r : Except ExecFeedbackCode Word} {s' : MMUSys β} (hlogged : Logged s s' events)
      (hamo : AmoEvents f src addr size buffer old data fb own events)
      (hr : fb = .ok → r = .ok (Bytes.extend true size.toNat old)) :
      Performed s (.amo f va size src) r s'

namespace MemOp

/-- Every access but an AMO. -/
theorem access_accounted (env : MMUEnv) (bare : Bool) (paddr : Word) {op : MemOp}
    (hop : ∀ f addr size src, op ≠ .amo f addr size src) (hsize : AtMostWord op.size) :
    Preserves (Accounted s) (op.access env bare paddr) := by
  cases op with
  | load addr size signed => exact .bind (busRead_accounted rfl hsize _ _) fun _ => .pure _
  | store addr size data =>
      exact .bind (busWrite_accounted rfl (by decide) hsize _ _) fun _ => .pure _
  | loadReserved addr size =>
      refine .bind (.bind ?_ fun _ => .bind (busRead_accounted rfl hsize _ _) fun _ => .pure _)
        fun _ => .pure _
      exact onMMU_accounted _
  | storeConditional addr size data =>
      refine .bind (.bind .get fun t => .ite ?_ ?_) fun _ => .pure _
      · exact .bind (onMMU_accounted _) fun _ => .pure _
      · refine .bind (onMMU_accounted _) fun _ => ?_
        exact .bind (busWrite_accounted rfl (by decide) hsize _ _) fun _ => .pure _
  | amo f addr size src => exact absurd rfl (hop f addr size src)

/-- An AMO reads and then writes. -/
theorem amo_performed (env : MMUEnv) (bare : Bool) (paddr : Word) (f : AMOFunct)
    {addr size src : Word} (hsize : AtMostWord size) {t : MMUSys β} (ht : Accounted s t) :
    Sat t ((amo f addr size src).access env bare paddr)
      (Performed s (amo f addr size src)) (fun _ _ => True) := by
  refine .bind (.bind (busCall_sat (fun answer b hr => ?_) fun _ _ _ => trivial))
  have hstep : BusStep t.sysBus (.read .amoRead paddr size _ answer) b := .read rfl hr
  have hread := ht.event hstep ⟨hsize.1, hsize.2, nofun⟩ t.mmu
  refine .ite (fun _ => .pure (.pure (.plain hread))) fun hok => ?_
  obtain ⟨fb, old⟩ := answer
  obtain rfl : fb = .ok := not_not.mp hok
  dsimp only
  cases happly : f.apply src (Bytes.extend true size.toNat old) with
  | none => exact .throw trivial
  | some value =>
      dsimp only
      refine .bind (busCall_sat (fun feedback b' hw => .pure (.pure ?_)) fun _ _ _ => trivial)
      obtain ⟨own, hlogged, hplain⟩ := ht
      have hwrite : BusStep b (.write .amoWrite paddr size _ feedback) b' := .write rfl hw
      have hlogged' := (hlogged.event hstep t.mmu).event hwrite t.mmu
      refine .amo hlogged' ⟨List.append_assoc _ _ _, hplain, hsize, ?_⟩ ?_
      · rw [AMOFunct.update, happly, Option.map_some]
      · rintro rfl
        rfl

/-- What the MMU does for an operation, event by event. -/
theorem perform_performed (env : MMUEnv) {op : MemOp} (hsize : AtMostWord op.size)
    {t : MMUSys β} (ht : Accounted s t) :
    Sat t (op.perform env) (Performed s op) (fun _ _ => True) := by
  have haccess (bare : Bool) (paddr : Word) {t : MMUSys β} (ht : Accounted s t) :
      Sat t (op.access env bare paddr) (Performed s op) (fun _ _ => True) := by
    cases op with
    | amo f addr size src => exact amo_performed env bare paddr f hsize ht
    | load | store | loadReserved | storeConditional =>
        refine (access_accounted env bare paddr (fun _ _ _ _ h => ?_) hsize t ht).mono
          (fun _ _ h => .plain h) fun _ _ h => h
        cases h
  exact perform_sat (fun _ => MMUSys.getTLBEntry_accounted env op.addr t ht) (.plain ht)
    (fun _ _ _ h _ => .plain h) (fun _ _ _ _ => trivial) (fun _ => haccess true _ ht)
    fun _ _ _ h _ => haccess false _ h

end MemOp

/-! ## The events of a step -/

/-- The events of a step from `m` to `m'` are those of the AMO that `m` executes, and where its
write goes through `rd` is then what it has loaded. -/
def AmoStep (m m' : Machine β) (events : List BusEvent) : Prop :=
  ∃ f va src rd addr size buffer old data fb own, m.memOp = some (.amo f va size src, rd) ∧
    AmoEvents f src addr size buffer old data fb own events ∧
    (fb = .ok → rd ≠ 0 → m'.core.GPR rd = Bytes.extend true size.toNat old)

/-- The bus goes by the events of a step from `m` to `m'`, and the log is their record. -/
structure StepEvents (m m' : Machine β) (events : List BusEvent) : Prop where
  goes : Steps BusStep m.mem.sysBus events m'.mem.sysBus
  log : m'.mem.busLog = events.map BusEvent.access
  size : ∀ e ∈ events, AtMostWord e.access.size
  amo : (∀ e ∈ events, e.Plain) ∨ AmoStep m m' events

/-- A step whose accesses are all plain. -/
theorem Accounted.stepEvents {m m' : Machine β} (h : Accounted m.clearLogs.mem m'.mem) :
    ∃ events, StepEvents m m' events := by
  obtain ⟨events, hlogged, hplain⟩ := h
  exact ⟨events, hlogged.goes, hlogged.log, fun e he => ⟨(hplain e he).pos, (hplain e he).le⟩,
    .inl hplain⟩

/-- A step whose last accesses are those of its memory operation. -/
theorem Performed.stepEvents {op : MemOp} {rd : BitVec 5} {r : Except ExecFeedbackCode Word}
    {m : Machine β} (m' : Machine β) (h : Performed m.clearLogs.mem op r m'.mem)
    (hop : m.memOp = some (op, rd))
    (hrd : ∀ value, r = .ok value → rd ≠ 0 → m'.core.GPR rd = value) :
    ∃ events, StepEvents m m' events := by
  cases h with
  | plain h => exact h.stepEvents
  | amo hlogged hamo hr =>
      refine ⟨_, hlogged.goes, hlogged.log, hamo.atMostWord, .inr ?_⟩
      exact ⟨_, _, _, rd, _, _, _, _, _, _, _, hop, hamo, fun hfb => hrd _ (hr hfb)⟩

/-- In a completed step the bus goes by events, and the log is their record. -/
theorem stepCoreAPI_busEvents {m m' : Machine β} {fb : FuncReturnFeedback}
    (h : stepCoreAPI.run m = .ok fb m') : ∃ events, StepEvents m m' events := by
  have hfetched {t : MMUSys β} (ht : Fetched m t) : Accounted m.clearLogs.mem t := by
    rcases ht with rfl | ⟨r, hr⟩
    · exact .refl _
    · exact (MMUSys.vaddrInstFetch_accounted _ _ _ m.clearLogs.mem (.refl _)).ok hr
  rcases (h ▸ stepCoreAPI_effect m : StepEffect m (.ok fb m')).cases_ok with
    ⟨_, _, _, _, t, t', ht, hfail, rfl⟩ | ⟨inst, flags, t, m₁, hf, ht, hret, rfl⟩
  · rcases hfail with rfl | ⟨op, rd, cause, hop, hr⟩
    · exact Accounted.stepEvents (hfetched ht)
    · have hperformed := (op.perform_performed _ (Machine.memOp_size hop) (hfetched ht)).ok hr
      exact hperformed.stepEvents ⟨_, t'⟩ hop nofun
  · cases hret with
    | mem op rd value t' hr hop =>
        have hop : m.memOp = some (op, rd) := (Machine.memOp_of_fetch hf).trans hop
        have hperformed := (op.perform_performed _ (Machine.memOp_size hop) (hfetched ht)).ok hr
        refine hperformed.stepEvents ⟨_, t'⟩ hop ?_
        rintro _ ⟨⟩ hrd
        show (m.begun.setGPR rd value).GPR rd = value
        rw [RV64Core.setGPR, if_neg hrd]
        exact if_pos rfl
    | sfence => exact Accounted.stepEvents ((hfetched ht).mmu _)
    | set | jump | csr | mret | sret => exact Accounted.stepEvents (hfetched ht)

end Steps

/-! ## The events of a device -/

/-- An access of a device that has returned.  What the device answers to the call is not
looked at. -/
inductive DevEvent where
  | read (begin_addr size : Word) (buffer data : List Byte)
  | write (begin_addr size : Word) (data : List Byte)

/-- The access of a device at `base_addr` that a bus access comes to. -/
def BusEvent.forDev (base_addr : Word) : BusEvent → DevEvent
  | read _ addr size buffer answer => .read (addr - base_addr) size buffer answer.2
  | write _ addr size data _ => .write (addr - base_addr) size data

section Devices

variable {δ : Type} [MMIODevI δ]

/-- The device goes by one access. -/
inductive DevStep : δ → DevEvent → δ → Prop where
  | read {d d' : δ} {begin_addr size : Word} {buffer data : List Byte} {fb : FuncReturnFeedback}
      (hr : (MMIODevI.readBuffer begin_addr size buffer).run d = .ok (fb, data) d') :
      DevStep d (.read begin_addr size buffer data) d'
  | write {d d' : δ} {begin_addr size : Word} {data : List Byte} {fb : FuncReturnFeedback}
      (hr : (MMIODevI.writeBuffer begin_addr size data).run d = .ok fb d') :
      DevStep d (.write begin_addr size data) d'

namespace MEmuMMIOBus

variable {b b' b'' : MEmuMMIOBus δ} {e : BusEvent} {h : DevHandle}

omit [MMIODevI δ] in
/-- The same devices in the same regions. -/
structure SameMap (b b' : MEmuMMIOBus δ) : Prop where
  mmioDevs : b'.mmioDevs = b.mmioDevs
  devBaseAddr : ∀ h, (b'.obj h).devBaseAddr = (b.obj h).devBaseAddr
  addrRegionSize : ∀ h, (b'.obj h).addrRegionSize = (b.obj h).addrRegionSize

omit [MMIODevI δ] in
theorem SameMap.trans (hm : SameMap b b') (hm' : SameMap b' b'') : SameMap b b'' :=
  ⟨hm'.mmioDevs.trans hm.mmioDevs, fun h => (hm'.devBaseAddr h).trans (hm.devBaseAddr h),
    fun h => (hm'.addrRegionSize h).trans (hm.addrRegionSize h)⟩

omit [MMIODevI δ] in
/-- Buses that route alike have the same devices at the same places. -/
theorem SameRoutes.sameMap (hr : SameRoutes b b') : SameMap b b' :=
  ⟨hr.mmioDevs, hr.devBaseAddr, hr.addrRegionSize⟩

omit [MMIODevI δ] in
/-- A search changes the cache only. -/
theorem SameMap.find (b : MEmuMMIOBus δ) (addr : Word) :
    SameMap b (b.findDevAccordingToAddr addr).2 :=
  ⟨b.findDev_mmioDevs addr, fun _ => by rw [findDev_obj], fun _ => by rw [findDev_obj]⟩

omit [MMIODevI δ] in
/-- A call of a device that returns has run its method, and changed no other device. -/
theorem callDev_ok {α : Type} {method : EStateM Abort δ α} {a : α}
    (hr : (callDev h method).run b = .ok a b') :
    method.run (b.obj h).dev = .ok a (b'.obj h).dev ∧ ∀ k, k ≠ h → b'.obj k = b.obj k := by
  rw [run_callDev] at hr
  split at hr <;> cases hr
  refine ⟨?_, fun k hk => obj_setObj_of_ne hk⟩
  rw [obj_setObj_self]
  assumption

/-- What an event does to the devices: an access of the one that it is routed to, and nothing
to any other. -/
structure Dispatched (b : MEmuMMIOBus δ) (e : BusEvent) (b' : MEmuMMIOBus δ) : Prop where
  routed : b'.Routed
  map : SameMap b b'
  dispatch : ∀ h, (b.findDevAccordingToAddr e.addr).1 = some h →
    DevStep (b.obj h).dev (e.forDev (b.obj h).devBaseAddr) (b'.obj h).dev
  others : ∀ h, (b.findDevAccordingToAddr e.addr).1 ≠ some h → b'.obj h = b.obj h

/-- An access goes to the device that the lookup finds. -/
theorem Dispatched.of_call {α γ : Type} {method : DevHandle → EStateM Abort δ α} {f : α → γ}
    {none' r : γ} (hb : b.Routed)
    (hr : (match (b.findDevAccordingToAddr e.addr).1 with
      | none => EStateM.Result.ok none' (b.findDevAccordingToAddr e.addr).2
      | some h => (do let a ← callDev h (method h); pure (f a)).run
          (b.findDevAccordingToAddr e.addr).2) = .ok r b')
    (hstep : ∀ h a d, (method h).run (b.obj h).dev = .ok a d → f a = r →
      DevStep (b.obj h).dev (e.forDev (b.obj h).devBaseAddr) d) : Dispatched b e b' := by
  have hfind := hb.find e.addr
  have hmap := SameMap.find b e.addr
  have hobj := b.findDev_obj e.addr
  cases hf : (b.findDevAccordingToAddr e.addr).1 with
  | none =>
      rw [hf] at hr
      cases hr
      refine ⟨hfind, hmap, fun h hh => ?_, fun h _ => congrFun hobj h⟩
      rw [hf] at hh
      cases hh
  | some k =>
      rw [hf] at hr
      simp only [EStateM.run_bind] at hr
      split at hr
      · rename_i a b₁ hcall
        cases hr
        have hroutes := (callDev_sameRoutes k (method k) _).ok hcall
        obtain ⟨hrun, hothers⟩ := callDev_ok hcall
        rw [hobj] at hrun
        refine ⟨hfind.routes hroutes, hmap.trans hroutes.sameMap, fun h hh => ?_, fun h hh => ?_⟩
        · rw [hf] at hh
          cases hh
          exact hstep k a _ hrun rfl
        · rw [hothers h fun heq => hh (by rw [hf, heq]), hobj]
      · cases hr

/-- On a routed bus every event is dispatched. -/
theorem dispatched_of_step (hb : b.Routed) (he : BusStep b e b') : Dispatched b e b' := by
  cases he with
  | @read _ kind addr size buffer answer hkind hr =>
      refine .of_call hb ((run_paddrReadBuffer addr size buffer b).symm.trans hr) ?_
      rintro h ⟨fb, data⟩ d hrun rfl
      exact .read hrun
  | @write _ kind addr size data feedback hkind hr =>
      refine .of_call hb ((run_paddrWriteBuffer addr size data b).symm.trans hr) ?_
      rintro h fb d hrun -
      exact .write hrun

end MEmuMMIOBus

end Devices

end MEmu
