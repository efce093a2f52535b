import MEmu.CsrWrites
import MEmu.Retirement

/-!
# Probing an unsupported paging mode

A guest finds the paging modes of the machine by writing them to `satp` and reading back.  A mode
that is neither bare nor Sv39 is taken as bare: the rest of the value is written, and translation
is off until `satp` is written again.
-/

namespace MEmu

open RV64Core

/-! ## The accesses under a value of `satp` -/

section Accesses

variable (β : Type) [MMIOBus β]

/-- Loads, stores, atomics and fetches are made at their own addresses, and no entry is asked for
permission. -/
structure Untranslated (env : MMUEnv) : Prop where
  read (addr size : Word) (buffer : List Byte) :
    MMUSys.vaddrReadBuffer (β := β) env addr size buffer = MMUSys.readAt .load addr size buffer
  fetch (addr size : Word) (buffer : List Byte) :
    MMUSys.instFetchWhole (β := β) env addr size buffer = do
      cassert (addr % 2 = 0) .fetchAlign
      MMUSys.readAt .fetch addr size buffer
  write (addr size : Word) (buffer : List Byte) :
    MMUSys.vaddrWriteBuffer (β := β) env addr size buffer = do
      let fb ← busWrite .store addr size buffer
      pure (if fb = .ok then .accessOk else .accessFault)
  loadReserved (addr size : Word) (buffer : List Byte) :
    MMUSys.vaddrLoadReserved (β := β) env addr size buffer
      = MMUSys.reservedRead env addr addr size buffer
  storeConditional (addr size : Word) (buffer : List Byte) :
    MMUSys.vaddrStoreConditional (β := β) env addr size buffer
      = MMUSys.conditionalWrite env addr addr size buffer .storeAccFault
  atomic (addr size : Word) (op : AMOFunct) (src : Word) :
    MMUSys.vaddrAtomicMemOperation (β := β) env addr size op src = do
      let (amo_fb, dst) ← MMUSys.paAmoOp env addr size op src
      pure (if amo_fb then .ok else .storeAccFault, dst)

/-- It makes no difference to any access which of the two values `satp` holds. -/
def SameAccesses (satp satp' : Word) : Prop :=
  ∀ env : MMUEnv,
    (∀ op : MemOp, op.perform (β := β) { env with satp := satp }
        = op.perform { env with satp := satp' }) ∧
      ∀ (addr size : Word) (buffer : List Byte),
        MMUSys.vaddrInstFetch (β := β) { env with satp := satp } addr size buffer
          = MMUSys.vaddrInstFetch { env with satp := satp' } addr size buffer

variable {β}

theorem untranslated_of_mode {env : MMUEnv} (h : Satp.mode env.satp = 0) : Untranslated β env := by
  have hdata : env.bareData = true := by
    rw [MMUEnv.bareData, h]
    exact Bool.or_true _
  have hfetch : env.bareFetch = true := by
    rw [MMUEnv.bareFetch, h]
    exact Bool.or_true _
  constructor
  · intro addr size buffer
    exact if_pos hdata
  · intro addr size buffer
    rw [MMUSys.instFetchWhole, if_pos hfetch]
  · intro addr size buffer
    exact if_pos hdata
  · intro addr size buffer
    exact if_pos hdata
  · intro addr size buffer
    exact if_pos hdata
  · intro addr size op src
    exact if_pos hdata

/-- Where two values turn translation off, what else they hold is not looked at. -/
theorem sameAccesses_of_mode {w w' : Word} (h : Satp.mode w = 0) (h' : Satp.mode w' = 0) :
    SameAccesses β w w' := by
  intro env
  have hu : Untranslated β { env with satp := w } := untranslated_of_mode h
  have hu' : Untranslated β { env with satp := w' } := untranslated_of_mode h'
  constructor
  · intro op
    cases op with
    | load addr size signed =>
        simp only [MemOp.perform, hu.read, hu'.read]
        rfl
    | store addr size data => simp only [MemOp.perform, hu.write, hu'.write]
    | loadReserved addr size =>
        simp only [MemOp.perform, hu.loadReserved, hu'.loadReserved]
        rfl
    | storeConditional addr size data =>
        simp only [MemOp.perform, hu.storeConditional, hu'.storeConditional]
        rfl
    | amo op addr size src =>
        simp only [MemOp.perform, hu.atomic, hu'.atomic]
        rfl
  · intro addr size buffer
    simp only [MMUSys.vaddrInstFetch, hu.fetch, hu'.fetch]

end Accesses

/-! ## The writes of `satp` -/

section Step

variable {β : Type} [MMIOBus β] {m : Machine β} {s : MMUSys β} {inst : BitVec 32} {v : Word}

/-- The step from `m` executes a CSR instruction that writes `satp`. -/
def WritesSatp (m : Machine β) : Prop :=
  ∃ inst s v, fetchInst.run m = .ok (some inst) ⟨m.begun, s⟩ ∧
    csrWriteOf inst m.begun = some (CSRAddr.satp.val, v)

/-- An instruction that gets as far as the write of `satp` has read it, so the write goes through. -/
theorem csrWriteCase_of_satp {c : RV64Core} (h : csrWriteOf inst c = some (CSRAddr.satp.val, v)) :
    c.csrWriteCase v .satp = some { c with satp := legalSatp v } := by
  unfold csrWriteOf at h
  split at h
  · split at h
    · split at h
      · obtain ⟨old, hread, hpair⟩ := Option.map_eq_some_iff.mp h
        rw [(Prod.mk.inj hpair).1, csrRead, CSRAddr.ofVal_val, Option.bind_some,
          csrReadCase] at hread
        split at hread
        · cases hread
        · exact if_neg ‹_›
      · cases h
    · cases h
  · cases h

/-- The state after a step that executes such an instruction. -/
theorem final_satpWrite (hf : fetchInst.run m = .ok (some inst) ⟨m.begun, s⟩)
    (hw : csrWriteOf inst m.begun = some (CSRAddr.satp.val, v)) :
    (Run.final (stepCoreAPI.run m)).core.satp = legalSatp v ∧
      (Run.final (stepCoreAPI.run m)).mem = s := by
  have hcase := csrWriteCase_of_satp hw
  obtain ⟨old, haction⟩ := action_of_csrWrite hw hcase
  have ha : ((action inst m.begun).exec).run ⟨m.begun, s⟩
      = .ok .plain ⟨({ m.begun with satp := legalSatp v }).setGPR (RVInst.rd inst) old, s⟩ := by
    rw [haction, run_csr hcase]
    exact if_pos fun h => absurd h (by decide)
  rw [(final_of_action hf ha).2, atExit_legal rfl, setGPR_eq]
  exact ⟨rfl, rfl⟩

/-! ## A run without such a write -/

/-- A write of another register keeps `satp`. -/
theorem csrWriteCase_satp {c c' : RV64Core} {a : CSRAddr} (hne : a ≠ .satp)
    (h : c.csrWriteCase v a = some c') : c'.satp = c.satp := by
  have hcell : CSRAddr.satp.cell ≠ a.cell := by
    intro he
    cases a <;> cases he
    exact hne rfl
  rw [CSRAddr.eq_put h]
  exact CSRAddr.value_put v c (.inr hcell)

/-- Every function of the step keeps `satp`, but for a write of it. -/
theorem satp_invariant (w : Word) : CoreInvariant (fun a _ => a ≠ .satp) fun c => c.satp = w where
  beginStep h := h
  trapped {c} h cause tval := by
    rcases c.trapped_cases cause tval with ⟨-, ht⟩ | ⟨-, ht⟩ <;> rw [ht] <;> exact h
  retire h _ _ := h
  setGPR h rd value := by
    rw [setGPR_eq]
    exact h
  setPC h _ := h
  csrWrite h hW _ hw := (csrWriteCase_satp hW hw).trans h
  returnM h := h
  returnS h := h

theorem CoreRun.satp_eq {c₀ c : RV64Core} {steps : List (Machine β × RV64Core)}
    (h : CoreRun c₀ steps c) (hno : ∀ p ∈ steps, ¬WritesSatp p.1) : c.satp = c₀.satp := by
  induction h with
  | start => rfl
  | lines h lines ih => exact ih hno
  | @step steps m m' fb h hstep ih =>
      have hold := ih fun p hp => hno p (List.mem_append_left _ hp)
      have hlast := hno (m, m'.core) (List.mem_append_right _ (List.mem_singleton.mpr rfl))
      refine ((satp_invariant m.core.satp).step hstep rfl ?_).trans hold
      rintro inst s a v hf hw rfl
      exact hlast ⟨inst, s, v, hf, hw⟩

/-! ## The probe -/

/-- What the write of `v` in the step from `m`, after a fetch that left the memory `s`, comes to:
the value is written as bare, and as long as `satp` is not written again, every access is
untranslated, and as before if it was untranslated before. -/
structure Probed (m : Machine β) (s : MMUSys β) (v : Word) (m' : Machine β) : Prop where
  satp : m'.core.satp = Satp.setMode 0 v
  mem : m'.mem = s
  later {steps : List (Machine β × RV64Core)} {c : RV64Core} (h : CoreRun m'.core steps c)
    (hno : ∀ p ∈ steps, ¬WritesSatp p.1) :
    (∀ env : MMUEnv, env.satp = c.satp → Untranslated β env) ∧
      (Satp.mode m.core.satp = 0 → SameAccesses β c.satp m.core.satp)

/-- A CSR instruction that writes `satp` with a mode that is neither bare nor Sv39 turns
translation off. -/
theorem probe_turns_off (hf : fetchInst.run m = .ok (some inst) ⟨m.begun, s⟩)
    (hw : csrWriteOf inst m.begun = some (CSRAddr.satp.val, v)) (hbare : Satp.mode v ≠ 0)
    (hsv39 : Satp.mode v ≠ 8) : Probed m s v (Run.final (stepCoreAPI.run m)) := by
  obtain ⟨hsatp, hmem⟩ := final_satpWrite hf hw
  have hlegal : legalSatp v = Satp.setMode 0 v := if_pos ⟨hbare, hsv39⟩
  have hoff : Satp.mode (Satp.setMode 0 v) = 0 := BitField.get_set_same _ _ (by decide)
  rw [hlegal] at hsatp
  refine ⟨hsatp, hmem, fun h hno => ?_⟩
  rw [h.satp_eq hno, hsatp]
  constructor
  · intro env henv
    exact untranslated_of_mode (henv ▸ hoff)
  · intro hold
    exact sameAccesses_of_mode hoff hold

end Step

/-- Sv39 is on, and M-mode is at `csrrw x0, satp, x1` with mode 9 (Sv48) in `x1`. -/
def probesSv48 : Machine (MEmuMMIOBus MMIOMem) :=
  .ofBytes { (default : RV64Core).reset.setGPR 1 (9 <<< 60) with satp := 8 <<< 60 ||| 5 }
    [0x73, 0x90, 0x00, 0x18]

theorem fetch_probesSv48 : fetchInst.run probesSv48
    = .ok (some 0x18009073) ⟨probesSv48.begun, (Run.final (fetchInst.run probesSv48)).mem⟩ := by
  rfl

theorem probe_turns_off_sv48 :
    Probed probesSv48 (Run.final (fetchInst.run probesSv48)).mem (9 <<< 60)
      (Run.final (stepCoreAPI.run probesSv48)) :=
  probe_turns_off fetch_probesSv48 (by decide) (by decide) (by decide)

/-- The probe changes `satp`, and the paging mode with it. -/
theorem probe_changes :
    ¬∀ (m : Machine (MEmuMMIOBus MMIOMem)) (s : MMUSys (MEmuMMIOBus MMIOMem)) (inst : BitVec 32)
        (v : Word), fetchInst.run m = .ok (some inst) ⟨m.begun, s⟩ →
      csrWriteOf inst m.begun = some (CSRAddr.satp.val, v) → Satp.mode v ≠ 0 → Satp.mode v ≠ 8 →
      (Run.final (stepCoreAPI.run m)).core.satp = m.core.satp := by
  intro h
  have hsame := h probesSv48 _ _ (9 <<< 60) fetch_probesSv48 (by decide) (by decide) (by decide)
  revert hsame
  decide +kernel

end MEmu
