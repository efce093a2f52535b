import MEmu.Assertions
import MEmu.ReservedBytes
import MEmu.Uart

/-!
# What becomes of a refusal

A device answers an access or refuses it.  The bus looks at whether there is a device and not
at what the device says, so `MEMU_OK` is what every caller above it sees: a fetch goes on with
the bytes that its buffer held before, and so does the data access of an instruction.
-/

namespace MEmu

open Run (Sat)

/-! ## Calls of the bus -/

/-- A call of the bus. -/
inductive BusCall where
  | read (addr size : Word) (buffer : List Byte)
  | write (addr size : Word) (buffer : List Byte)

section Call

variable {δ : Type} [MMIODevI δ] {b b' : MEmuMMIOBus δ}

/-- What the bus returns, if it returns. -/
def BusCall.feedback (b : MEmuMMIOBus δ) : BusCall → Option FuncReturnFeedback
  | read addr size buffer =>
      match (MEmuMMIOBus.paddrReadBuffer addr size buffer).run b with
      | .ok r _ => some r.1
      | .error _ _ => none
  | write addr size buffer =>
      match (MEmuMMIOBus.paddrWriteBuffer addr size buffer).run b with
      | .ok fb _ => some fb
      | .error _ _ => none

/-- The call is dispatched to a device, which returns a failure. -/
def BusCall.Refused (b : MEmuMMIOBus δ) : BusCall → Prop
  | read addr size buffer => ∃ h r dev, (b.findDevAccordingToAddr addr).1 = some h ∧
      (MMIODevI.readBuffer (addr - (b.obj h).devBaseAddr) size buffer).run (b.obj h).dev
        = .ok r dev ∧ r.1 ≠ .ok
  | write addr size buffer => ∃ h fb dev, (b.findDevAccordingToAddr addr).1 = some h ∧
      (MMIODevI.writeBuffer (addr - (b.obj h).devBaseAddr) size buffer).run (b.obj h).dev
        = .ok fb dev ∧ fb ≠ .ok

/-- A refused read returns `MEMU_OK`, and the buffer as the device left it. -/
theorem run_read_refused {addr size : Word} {buffer : List Byte}
    (h : (BusCall.read addr size buffer).Refused b) :
    ∃ stale b', (MEmuMMIOBus.paddrReadBuffer addr size buffer).run b = .ok (.ok, stale) b' := by
  obtain ⟨d, r, dev, hfind, hdev, -⟩ := h
  have hobj := b.findDev_obj addr
  rw [MEmuMMIOBus.run_paddrReadBuffer, hfind]
  dsimp only
  rw [EStateM.run_bind, MEmuMMIOBus.run_callDev, hobj, hdev]
  exact ⟨_, _, rfl⟩

theorem run_write_refused {addr size : Word} {buffer : List Byte}
    (h : (BusCall.write addr size buffer).Refused b) :
    ∃ b', (MEmuMMIOBus.paddrWriteBuffer addr size buffer).run b = .ok .ok b' := by
  obtain ⟨d, fb, dev, hfind, hdev, -⟩ := h
  have hobj := b.findDev_obj addr
  rw [MEmuMMIOBus.run_paddrWriteBuffer, hfind]
  dsimp only
  rw [EStateM.run_bind, MEmuMMIOBus.run_callDev, hobj, hdev]
  exact ⟨_, rfl⟩

theorem feedback_refused {c : BusCall} (h : c.Refused b) : c.feedback b = some .ok := by
  cases c with
  | read addr size buffer =>
      obtain ⟨stale, b', hr⟩ := run_read_refused h
      rw [BusCall.feedback, hr]
  | write addr size buffer =>
      obtain ⟨b', hr⟩ := run_write_refused h
      rw [BusCall.feedback, hr]

theorem read_found {addr size : Word} {buffer : List Byte}
    (h : (BusCall.read addr size buffer).Refused b) : (b.findDevAccordingToAddr addr).1 ≠ none := by
  obtain ⟨d, r, dev, hfind, -⟩ := h
  rw [hfind]
  exact Option.some_ne_none d

theorem write_found {addr size : Word} {buffer : List Byte}
    (h : (BusCall.write addr size buffer).Refused b) :
    (b.findDevAccordingToAddr addr).1 ≠ none := by
  obtain ⟨d, fb, dev, hfind, -⟩ := h
  rw [hfind]
  exact Option.some_ne_none d

/-- A read that returns `MEMU_OK` went to a device. -/
theorem found_of_read {addr size : Word} {buffer data : List Byte}
    (hr : (MEmuMMIOBus.paddrReadBuffer addr size buffer).run b = .ok (.ok, data) b') :
    (b.findDevAccordingToAddr addr).1 ≠ none := by
  intro hnone
  rw [MEmuMMIOBus.run_paddrReadBuffer, hnone] at hr
  cases hr

/-- The device that a read is dispatched to is found again. -/
theorem found_after_read {addr size : Word} {buffer : List Byte}
    {r : FuncReturnFeedback × List Byte} (h : (b.findDevAccordingToAddr addr).1 ≠ none)
    (hr : (MEmuMMIOBus.paddrReadBuffer addr size buffer).run b = .ok r b') :
    (b'.findDevAccordingToAddr addr).1 ≠ none := by
  obtain ⟨d, hd⟩ := Option.ne_none_iff_exists'.mp h
  have hcache := b.findDev_cache addr addr
  rw [if_pos rfl, hd] at hcache
  rw [MEmuMMIOBus.run_paddrReadBuffer, hd] at hr
  dsimp only at hr
  have hroutes := MEmuMMIOBus.callDev_sameRoutes d (MMIODevI.readBuffer
    (addr - (b.obj d).devBaseAddr) size buffer) (b.findDevAccordingToAddr addr).2
  rw [EStateM.run_bind] at hr
  cases hcall : (MEmuMMIOBus.callDev d (MMIODevI.readBuffer (addr - (b.obj d).devBaseAddr) size
      buffer)).run (b.findDevAccordingToAddr addr).2 with
  | error e b₁ =>
      rw [hcall] at hr
      cases hr
  | ok r₁ b₁ =>
      rw [hcall] at hr
      cases hr
      rw [MEmuMMIOBus.findDev_fst, (hroutes.ok hcall).devFindCache, hcache, Option.some_or]
      exact Option.some_ne_none d

end Call

/-! ## The calls of a step -/

section Step

variable {δ : Type} [MMIODevI δ]

/-- The calls of a data access at `paddr`, each with the bus as it is then. -/
inductive MemOp.Calls (env : MMUEnv) (paddr : Word) (s : MMUSys (MEmuMMIOBus δ)) :
    MemOp → BusCall → MEmuMMIOBus δ → Prop where
  | load (addr size : Word) (signed : Bool) :
      Calls env paddr s (.load addr size signed) (.read paddr size (env.uninit size.toNat))
        s.sysBus
  | store (addr size data : Word) :
      Calls env paddr s (.store addr size data)
        (.write paddr size (Bytes.ofWord size.toNat data)) s.sysBus
  | loadReserved (addr size : Word) :
      Calls env paddr s (.loadReserved addr size) (.read paddr size (env.uninit size.toNat))
        s.sysBus
  | storeConditional (addr size data : Word)
      (hkept : MMUSys.reservationLost env addr size s.mmu = false) :
      Calls env paddr s (.storeConditional addr size data)
        (.write paddr size (Bytes.ofWord size.toNat data)) s.sysBus
  | amoRead (op : AMOFunct) (addr size src : Word) :
      Calls env paddr s (.amo op addr size src) (.read paddr size (env.uninit size.toNat))
        s.sysBus
  | amoWrite (op : AMOFunct) (addr size src value : Word) (buf : List Byte) (b : MEmuMMIOBus δ)
      (hread : (MEmuMMIOBus.paddrReadBuffer paddr size (env.uninit size.toNat)).run s.sysBus
        = .ok (.ok, buf) b)
      (hvalue : op.apply src (Bytes.extend true size.toNat buf) = some value) :
      Calls env paddr s (.amo op addr size src)
        (.write paddr size (Bytes.ofWord size.toNat value)) b

/-- A call of the data access `op` of a step. -/
structure DataCall (m : Machine (MEmuMMIOBus δ)) (op : MemOp) (c : BusCall)
    (b : MEmuMMIOBus δ) : Prop where
  aligned : op.checksAlign = true → op.addr % op.size = 0
  calls : ∃ paddr s, m.target = some (op, .ok paddr, s) ∧ op.Calls m.begun.mmuEnv paddr s c b

/-- Where a fetch that is not split goes, or the fault that ends it before. -/
def fetchPlace (env : MMUEnv) (begin_addr size : Word) :
    MMUM (MEmuMMIOBus δ) (Except VAddrRWFeedback Word) :=
  if env.bareFetch then pure (.ok begin_addr)
  else MMUSys.pagedAddr env begin_addr size .misAlign .pageFault (fetchCheck env)

/-- The parts of the fetch of a step: all four bytes, or each half after what comes before it. -/
inductive FetchPart (m : Machine (MEmuMMIOBus δ)) :
    Word → Word → List Byte → MMUSys (MEmuMMIOBus δ) → Prop where
  | whole (h : m.begun.currentProgramCounter % 4 ≠ 2) :
      FetchPart m m.begun.currentProgramCounter 4 (Bytes.ofWord 4 0) m.clearLogs.mem
  | low (h : m.begun.currentProgramCounter % 4 = 2) :
      FetchPart m m.begun.currentProgramCounter 2 ((Bytes.ofWord 4 0).take 2) m.clearLogs.mem
  | high (h : m.begun.currentProgramCounter % 4 = 2) {low : List Byte}
      {s : MMUSys (MEmuMMIOBus δ)}
      (hlow : (MMUSys.instFetchWhole m.begun.mmuEnv m.begun.currentProgramCounter 2
        ((Bytes.ofWord 4 0).take 2)).run m.clearLogs.mem = .ok (.accessOk, low) s) :
      FetchPart m (m.begun.currentProgramCounter + 2) 2 ((Bytes.ofWord 4 0).drop 2) s

/-- The call of a part of the fetch of a step. -/
structure FetchCall (m : Machine (MEmuMMIOBus δ)) (begin_addr size : Word) (buffer : List Byte)
    (s : MMUSys (MEmuMMIOBus δ)) (c : BusCall) (b : MEmuMMIOBus δ) : Prop where
  fetches : m.Fetches
  part : FetchPart m begin_addr size buffer s
  call : ∃ paddr s₁, (fetchPlace m.begun.mmuEnv begin_addr size).run s = .ok (.ok paddr) s₁ ∧
    c = .read paddr size buffer ∧ b = s₁.sysBus

/-- The instruction of a step that is about to access. -/
theorem Machine.of_target {β : Type} [MMIOBus β] {m : Machine β} {op : MemOp}
    {place : Except ExecFeedbackCode Word} {s : MMUSys β} (h : m.target = some (op, place, s)) :
    ∃ inst m₁ rd, fetchInst.run m = .ok (some inst) m₁ ∧ memOpOf inst m₁.core = some (op, rd) ∧
      (op.locate m₁.core.mmuEnv).run m₁.mem = .ok place s := by
  unfold Machine.target at h
  split at h
  case h_2 => cases h
  rename_i inst m₁ hf
  split at h
  case h_2 => cases h
  rename_i op' rd hop
  split at h
  case h_2 => cases h
  rename_i place' s' hplace
  cases h
  exact ⟨inst, m₁, rd, hf, hop, hplace⟩

/-! ## What the core makes of a refusal -/

variable {m : Machine (MEmuMMIOBus δ)} {c : BusCall} {b : MEmuMMIOBus δ} {env : MMUEnv}
  {s : MMUSys (MEmuMMIOBus δ)}

/-- An access that is given to the MMU goes where it is located. -/
theorem perform_of_locate {op : MemOp} {place : Except ExecFeedbackCode Word}
    {s' : MMUSys (MEmuMMIOBus δ)} (halign : op.checksAlign = true → op.addr % op.size = 0)
    (h : (op.locate env).run s = .ok place s') :
    (op.perform env).run s = (op.reach env place).run s' := by
  rw [MemOp.perform_eq, MemOp.path, if_neg fun hno => hno.2 (halign hno.1)]
  rw [MemOp.locate] at h
  by_cases hb : env.bareData = true
  · rw [if_pos hb] at h ⊢
    cases h
    rw [MemOp.reach, hb]
  · rw [if_neg hb] at h ⊢
    rw [EStateM.run_bind, h]
    cases place with
    | error fault => rfl
    | ok paddr => rw [MemOp.reach, Bool.eq_false_iff.mpr hb]

theorem outcome_ok (value : Word) : MemOp.outcome .ok value = .ok value := rfl

/-- An access fails only where there is no device. -/
theorem access_found {op : MemOp} {paddr : Word} (bare : Bool)
    (h : (s.sysBus.findDevAccordingToAddr paddr).1 ≠ none) :
    Sat s (op.access env bare paddr) (fun r _ => ∃ v, r = .ok v) (fun _ _ => True) := by
  cases op with
  | load addr size signed =>
      refine .bind (busCall_sat (fun r b hr => .pure ?_) fun _ _ _ => trivial)
      rw [if_pos ((MEmuMMIOBus.paddrReadBuffer_found h _ _).ok hr)]
      exact ⟨_, outcome_ok _⟩
  | store addr size data =>
      refine .bind (busCall_sat (fun fb b hr => .pure ?_) fun _ _ _ => trivial)
      rw [if_pos ((MEmuMMIOBus.paddrWriteBuffer_found h _ _).ok hr)]
      exact ⟨_, outcome_ok _⟩
  | loadReserved addr size =>
      refine .bind (.bind (MMUSys.onMMU_sat (.modify ?_)))
      refine .bind (busCall_sat (fun r b hr => .pure (.pure ?_)) fun _ _ _ => trivial)
      rw [if_pos ((MEmuMMIOBus.paddrReadBuffer_found h _ _).ok hr)]
      exact ⟨_, outcome_ok _⟩
  | storeConditional addr size data =>
      refine .bind (.bind (.get (.ite (fun _ => ?_) fun _ => ?_)))
      · exact .bind (MMUSys.onMMU_sat (.modify (.pure (.pure ⟨_, outcome_ok _⟩))))
      · refine .bind (MMUSys.onMMU_sat (.modify ?_))
        refine .bind (busCall_sat (fun fb b hr => .pure (.pure ?_)) fun _ _ _ => trivial)
        rw [if_pos ((MEmuMMIOBus.paddrWriteBuffer_found h _ _).ok hr)]
        exact ⟨_, outcome_ok _⟩
  | amo f addr size src =>
      refine .bind (.bind (busCall_sat (fun r b hr => ?_) fun _ _ _ => trivial))
      refine .ite (fun hno => absurd ((MEmuMMIOBus.paddrReadBuffer_found h _ _).ok hr) hno) fun _ => ?_
      dsimp only
      split
      · exact .throw trivial
      · refine .bind (busCall_sat (fun fb b' hw => .pure (.pure ?_)) fun _ _ _ => trivial)
        cases (MEmuMMIOBus.paddrWriteBuffer_found (found_after_read h hr) _ _).ok hw
        exact ⟨_, outcome_ok _⟩

/-- The device that refuses a call of an access is at the place of the access. -/
theorem MemOp.Calls.found {op : MemOp} {paddr : Word} (hc : op.Calls env paddr s c b)
    (href : c.Refused b) : (s.sysBus.findDevAccordingToAddr paddr).1 ≠ none := by
  cases hc with
  | load | loadReserved | amoRead => exact read_found href
  | store | storeConditional => exact write_found href
  | amoWrite op addr size src value buf b hread => exact found_of_read hread

/-- A step whose data access is refused ends with its value and does not trap. -/
theorem stepCoreAPI_refused {m' : Machine (MEmuMMIOBus δ)} {fb : FuncReturnFeedback} {op : MemOp}
    (hc : DataCall m op c b) (href : c.Refused b) (h : stepCoreAPI.run m = .ok fb m') :
    m'.core.trapLog = [] := by
  obtain ⟨halign, paddr, s, htarget, hcall⟩ := hc
  obtain ⟨inst, m₁, rd, hf, hop, hplace⟩ := Machine.of_target htarget
  obtain ⟨s₁, -, rfl⟩ := fetchInst_ok hf
  obtain ⟨r, hr, hcore⟩ := stepCoreAPI_of_memOp hf hop h
  rw [perform_of_locate halign hplace] at hr
  obtain ⟨v, rfl⟩ := (access_found _ (hcall.found href)).ok hr
  rw [hcore]
  show (m.begun.setGPR rd v).trapLog = []
  rw [RV64Core.setGPR_eq]
  rfl

theorem FetchPart.even {begin_addr size : Word} {buffer : List Byte}
    (h : FetchPart m begin_addr size buffer s) (hm : m.Fetches) : begin_addr % 2 = 0 := by
  have hpc : m.begun.currentProgramCounter % 2 = 0 := hm.2
  cases h with
  | whole | low => exact hpc
  | high => exact even_add_two hpc

/-- A part of a fetch reads where it is placed. -/
theorem run_instFetchWhole_of_place {env : MMUEnv} {begin_addr size paddr : Word}
    {buffer : List Byte} {s₁ : MMUSys (MEmuMMIOBus δ)} (heven : begin_addr % 2 = 0)
    (hplace : (fetchPlace env begin_addr size).run s = .ok (.ok paddr) s₁) :
    (MMUSys.instFetchWhole env begin_addr size buffer).run s
      = (MMUSys.readAt .fetch paddr size buffer).run s₁ := by
  rw [MMUSys.instFetchWhole, cassert, if_pos heven, pure_bind]
  rw [fetchPlace] at hplace
  by_cases hb : env.bareFetch = true
  · rw [if_pos hb] at hplace ⊢
    cases hplace
    rfl
  · rw [if_neg hb] at hplace ⊢
    rw [EStateM.run_bind, hplace]

/-- A part of a fetch that is refused goes on with the bytes of its buffer. -/
theorem instFetchWhole_refused {begin_addr size : Word} {buffer : List Byte}
    (hc : FetchCall m begin_addr size buffer s c b) (href : c.Refused b) :
    ∃ stale s', (MMUSys.instFetchWhole m.begun.mmuEnv begin_addr size buffer).run s
      = .ok (.accessOk, stale) s' := by
  obtain ⟨hm, hpart, paddr, s₁, hplace, rfl, rfl⟩ := hc
  obtain ⟨stale, b', hread⟩ := run_read_refused href
  have hbus : (MMIOBus.paddrReadBuffer paddr size buffer).run s₁.sysBus
      = .ok (.ok, stale) b' := hread
  rw [run_instFetchWhole_of_place (hpart.even hm) hplace, MMUSys.readAt, EStateM.run_bind, busRead,
    run_busCall, hbus]
  exact ⟨stale, _, rfl⟩

/-- The last part of a fetch is followed by the execution of what was fetched. -/
theorem fetchInst_refused {begin_addr size : Word} {buffer : List Byte}
    (hc : FetchCall m begin_addr size buffer s c b) (href : c.Refused b)
    (hlast : begin_addr + size = m.begun.currentProgramCounter + 4) :
    ∃ inst m₁, fetchInst.run m = .ok (some inst) m₁ := by
  have hpart := instFetchWhole_refused hc href
  obtain ⟨stale, s', hr⟩ := hpart
  have hfetch : ∃ buf s'', m.fetch = .ok (.accessOk, buf) s'' := by
    rw [Machine.fetch, MMUSys.vaddrInstFetch]
    cases hc.part with
    | whole hpc =>
        rw [if_neg fun h => hpc h.2]
        exact ⟨_, _, hr⟩
    | low hpc => bv_omega
    | high hpc hlow =>
        rw [if_pos ⟨rfl, hpc⟩, EStateM.run_bind, hlow]
        dsimp only
        rw [if_neg fun h => h rfl, EStateM.run_bind, hr]
        exact ⟨_, _, rfl⟩
  obtain ⟨buf, s'', hfetch⟩ := hfetch
  rw [run_fetchInst hc.fetches, hfetch]
  dsimp only
  rw [if_neg fun h => h rfl]
  exact ⟨_, _, rfl⟩

/-- A refusal is reported by nobody. -/
theorem refusal_never_reported (href : c.Refused b) :
    c.feedback b = some .ok ∧
      (∀ op fb m', DataCall m op c b → stepCoreAPI.run m = .ok fb m' → m'.core.trapLog = []) ∧
      ∀ begin_addr size buffer s, FetchCall m begin_addr size buffer s c b →
        (∃ stale s', (MMUSys.instFetchWhole m.begun.mmuEnv begin_addr size buffer).run s
          = .ok (.accessOk, stale) s') ∧
        (begin_addr + size = m.begun.currentProgramCounter + 4 →
          ∃ inst m₁, fetchInst.run m = .ok (some inst) m₁) := by
  refine ⟨feedback_refused href, fun op fb m' hc h => stepCoreAPI_refused hc href h, ?_⟩
  intro begin_addr size buffer s hc
  exact ⟨instFetchWhole_refused hc href, fetchInst_refused hc href⟩

end Step

/-! ## RAM and a serial port -/

/-- Devices of two kinds on one bus. -/
instance {δ ε : Type} [MMIODevI δ] [MMIODevI ε] : MMIODevI (δ ⊕ ε) where
  readBuffer begin_addr size buffer := fun
    | .inl d =>
        match (MMIODevI.readBuffer begin_addr size buffer).run d with
        | .ok r d => .ok r (.inl d)
        | .error e d => .error e (.inl d)
    | .inr d =>
        match (MMIODevI.readBuffer begin_addr size buffer).run d with
        | .ok r d => .ok r (.inr d)
        | .error e d => .error e (.inr d)
  writeBuffer begin_addr size buffer := fun
    | .inl d =>
        match (MMIODevI.writeBuffer begin_addr size buffer).run d with
        | .ok fb d => .ok fb (.inl d)
        | .error e d => .error e (.inl d)
    | .inr d =>
        match (MMIODevI.writeBuffer begin_addr size buffer).run d with
        | .ok fb d => .ok fb (.inr d)
        | .error e d => .error e (.inr d)

section Sum

variable {δ : Type} (ε : Type) [MMIODevI δ] [MMIODevI ε] {begin_addr size : Word}
  {buffer : List Byte}

theorem run_readBuffer_inl {d d' : δ} {r : FuncReturnFeedback × List Byte}
    (h : (MMIODevI.readBuffer begin_addr size buffer).run d = .ok r d') :
    (MMIODevI.readBuffer begin_addr size buffer).run (.inl d : δ ⊕ ε) = .ok r (.inl d') := by
  show (match (MMIODevI.readBuffer begin_addr size buffer).run d with
    | .ok r d => EStateM.Result.ok r (Sum.inl d : δ ⊕ ε)
    | .error e d => .error e (Sum.inl d)) = _
  rw [h]

theorem run_readBuffer_inl_error {d d' : δ} {e : Abort}
    (h : (MMIODevI.readBuffer begin_addr size buffer).run d = .error e d') :
    (MMIODevI.readBuffer begin_addr size buffer).run (.inl d : δ ⊕ ε) = .error e (.inl d') := by
  show (match (MMIODevI.readBuffer begin_addr size buffer).run d with
    | .ok r d => EStateM.Result.ok r (Sum.inl d : δ ⊕ ε)
    | .error e d => .error e (Sum.inl d)) = _
  rw [h]

theorem run_writeBuffer_inl {d d' : δ} {r : FuncReturnFeedback}
    (h : (MMIODevI.writeBuffer begin_addr size buffer).run d = .ok r d') :
    (MMIODevI.writeBuffer begin_addr size buffer).run (.inl d : δ ⊕ ε) = .ok r (.inl d') := by
  show (match (MMIODevI.writeBuffer begin_addr size buffer).run d with
    | .ok r d => EStateM.Result.ok r (Sum.inl d : δ ⊕ ε)
    | .error e d => .error e (Sum.inl d)) = _
  rw [h]

variable {ε}

theorem run_writeBuffer_inl_error {d d' : δ} {e : Abort}
    (h : (MMIODevI.writeBuffer begin_addr size buffer).run d = .error e d') :
    (MMIODevI.writeBuffer begin_addr size buffer).run (.inl d : δ ⊕ ε) = .error e (.inl d') := by
  show (match (MMIODevI.writeBuffer begin_addr size buffer).run d with
    | .ok fb d => EStateM.Result.ok fb (Sum.inl d : δ ⊕ ε)
    | .error e d => .error e (Sum.inl d)) = _
  rw [h]

theorem readBuffer_inr_ok {d : ε} {d' : δ ⊕ ε} {r : FuncReturnFeedback × List Byte}
    (hr : (MMIODevI.readBuffer begin_addr size buffer).run (.inr d : δ ⊕ ε) = .ok r d') :
    ∃ e, (MMIODevI.readBuffer begin_addr size buffer).run d = .ok r e ∧ d' = .inr e := by
  change (match (MMIODevI.readBuffer begin_addr size buffer).run d with
    | .ok r d => EStateM.Result.ok r (.inr d : δ ⊕ ε)
    | .error e d => .error e (.inr d)) = _ at hr
  split at hr <;> cases hr
  exact ⟨_, ‹_›, rfl⟩

theorem writeBuffer_inr_ok {d : ε} {d' : δ ⊕ ε} {fb : FuncReturnFeedback}
    (hr : (MMIODevI.writeBuffer begin_addr size buffer).run (.inr d : δ ⊕ ε) = .ok fb d') :
    ∃ e, (MMIODevI.writeBuffer begin_addr size buffer).run d = .ok fb e ∧ d' = .inr e := by
  change (match (MMIODevI.writeBuffer begin_addr size buffer).run d with
    | .ok fb d => EStateM.Result.ok fb (.inr d : δ ⊕ ε)
    | .error e d => .error e (.inr d)) = _ at hr
  split at hr <;> cases hr
  exact ⟨_, ‹_›, rfl⟩

end Sum

/-- `ld a0, 32(a1)` in RAM at 0, with the serial port at 4096 in `a1`. -/
def loadsPastRegs : Machine (MEmuMMIOBus (MMIOMem ⊕ CemuUartAdapter)) :=
  let ram := MMIOMem.ofBytes [0x03, 0xb5, 0x05, 0x02]
  { core :=
      { (default : RV64Core) with
        GPR := fun r => if r = 11 then 4096 else 0
        nextPrivMode := .mMode
        indeterminate := 0x5a }
    mem :=
      { mmu := .construct default
        busLog := []
        sysBus :=
          { MEmuMMIOBus.empty fun h =>
              if h = 0 then { ram with dev := .inl ram.dev }
              else
                { devBaseAddr := 4096
                  addrRegionSize := CemuUartAdapter.new.addrRegionSize
                  dev := .inr .new } with
            mmioDevs := [0, 1] } } }

/-- The call of the bus that it makes. -/
def loadsPastRegs.call : BusCall := .read 4128 8 (loadsPastRegs.begun.mmuEnv.uninit 8)

theorem loadsPastRegs_calls : ∃ b, DataCall loadsPastRegs (.load 4128 8 true) loadsPastRegs.call b ∧
    loadsPastRegs.call.Refused b :=
  ⟨_, ⟨fun _ => by decide, 4128, _, rfl, .load ..⟩, 1, _, _, rfl, rfl, by decide⟩

theorem refusal_never_reported_load : ∃ b : MEmuMMIOBus (MMIOMem ⊕ CemuUartAdapter),
    loadsPastRegs.call.Refused b ∧ loadsPastRegs.call.feedback b = some .ok ∧
    ∀ fb m', stepCoreAPI.run loadsPastRegs = .ok fb m' → m'.core.trapLog = [] := by
  obtain ⟨b, hcall, href⟩ := loadsPastRegs_calls
  obtain ⟨hfb, hdata, -⟩ := refusal_never_reported (m := loadsPastRegs) href
  exact ⟨b, href, hfb, fun fb m' => hdata _ fb m' hcall⟩

/-- The load completes with what the stack held. -/
theorem refused_load_completes : ∃ b fb m',
    DataCall loadsPastRegs (.load 4128 8 true) loadsPastRegs.call b ∧
      loadsPastRegs.call.Refused b ∧ loadsPastRegs.call.feedback b = some .ok ∧
      stepCoreAPI.run loadsPastRegs = .ok fb m' ∧ m'.core.trapLog = [] ∧
      m'.core.GPR 10 = 0x5a := by
  obtain ⟨b, hcall, href⟩ := loadsPastRegs_calls
  refine ⟨b, _, _, hcall, href, feedback_refused href, rfl, ?_, ?_⟩
  · decide +kernel
  · decide +kernel

end MEmu
