import MEmu.Assertions
import MEmu.Legality
import MEmu.RvcFields

/-!
# The two halves of a fetch

A step fetches four bytes whatever the length of its instruction, in one piece or in
two.  The action of a compressed instruction reads the lower half alone
(`action_append`), so the upper half shows in a step only by the way its fetch ends,
and in the trap value of an illegal instruction, which is the whole word.
-/

namespace MEmu

open Machine (onCore)
open Run (Sat Sync Alike AbortsIn)
open RiscV

/-! ## The instruction -/

/-- The switch on compressed instructions does not see what follows the instruction. -/
theorem of16_append (hi hi' w : BitVec 16) (c : RV64Core) :
    Action.of16 (hi ++ w) c = Action.of16 (hi' ++ w) c := by
  have hbit {k : Nat} (hk : k < 16) :
      binaryConcat (hi ++ w) k k 0 = binaryConcat (hi' ++ w) k k 0 := by
    rw [RVC.bit_append hi w hk, RVC.bit_append hi' w hk]
  have h10 := hbit (k := 10) (by decide)
  have h11 := hbit (k := 11) (by decide)
  have h12 := hbit (k := 12) (by decide)
  simp only [Action.of16, Action.ofAddi16spnLui, Action.ofCAlu, Action.ofJrMvEbJalrAdd, memOp16,
    RVC.opcode_append, RVC.reg_rd, RVC.reg_rs2, RVC.regC_rdC, RVC.regC_rs1C, h10, h11, h12,
    RVC.funct2_append, RVC.imm6_append, RVC.immADDI_append, RVC.immADDI4SPN_append,
    RVC.immLW_append, RVC.immLD_append, RVC.immLWSP_append, RVC.immLDSP_append,
    RVC.immSWSP_append, RVC.immSDSP_append, RVC.immADDI16SP_append, RVC.immLUI_append,
    RVC.immJ_append, RVC.immB_append]

theorem action_append (hi hi' : BitVec 16) {w : BitVec 16} (hw : Compressed.quadrant w ≠ 0b11#2)
    (c : RV64Core) : action (hi ++ w) c = action (hi' ++ w) c := by
  rw [action, action, if_pos (isCompressedInst_append hi hw),
    if_pos (isCompressedInst_append hi' hw), of16_append hi hi']

/-! ## Runs on one core -/

section Sync

variable {β : Type}

/-- Machines with one core, whatever their memory. -/
def SameCore (m m' : Machine β) : Prop := m.core = m'.core

instance : Std.Symm (SameCore (β := β)) := ⟨fun _ _ h => h.symm⟩

theorem onCore_sync {α : Type} (x : CoreM α) : Sync (SameCore (β := β)) (onCore x) (onCore x) := by
  rintro ⟨c, s⟩ ⟨c', s'⟩ hc
  obtain rfl : c = c' := hc
  rw [Machine.run_onCore, Machine.run_onCore]
  cases x.run c <;> exact ⟨rfl, rfl⟩

theorem sfenceVma_sync (vaddr asid : Word) :
    Sync (SameCore (β := β)) (sfenceVma vaddr asid) (sfenceVma vaddr asid) := by
  rintro ⟨c, s⟩ ⟨c', s'⟩ hc
  obtain rfl : c = c' := hc
  by_cases hperm : c.sfencePermitted = true
  · rw [run_sfenceVma vaddr asid hperm, run_sfenceVma vaddr asid hperm]
    exact ⟨rfl, rfl⟩
  · simp only [sfenceVma, EStateM.run_bind, EStateM.run_get, if_neg hperm]
    exact ⟨rfl, rfl⟩

/-- The exit uses the instruction for the trap value of an illegal one alone. -/
theorem stepExit_sync {inst inst' : BitVec 32} (comp : Bool) {flags : ExecFlags}
    (h : flags.is_instr_illegal = true → inst = inst') :
    Sync (SameCore (β := β)) (onCore (stepExit inst comp flags))
      (onCore (stepExit inst' comp flags)) := by
  have heq : stepExit inst comp flags = stepExit inst' comp flags := by
    cases hill : flags.is_instr_illegal with
    | true => rw [h hill]
    | false => rw [stepExit, stepExit, hill, if_neg Bool.false_ne_true, if_neg Bool.false_ne_true]
  rw [heq]
  exact onCore_sync _

variable [MMIOBus β]

/-- An action that is no access does not look at the memory. -/
theorem Action.exec_sync {a : Action} (ha : ∀ op rd, a ≠ .access op rd) :
    Sync (SameCore (β := β)) a.exec a.exec := by
  have hset (rd : BitVec 5) (value : Word) :
      Sync (SameCore (β := β)) (setInto rd value) (setInto rd value) :=
    .bind (onCore_sync _) fun _ => .pure _
  have hjump (npc : Word) : Sync (SameCore (β := β)) (jumpTo npc) (jumpTo npc) :=
    .bind (onCore_sync _) fun _ => .pure _
  have hraise (npc : Word) (flags : ExecFlags) : Sync (SameCore (β := β))
      (do raiseException .instrMisalign npc; pure flags)
      (do raiseException .instrMisalign npc; pure flags) :=
    .bind (onCore_sync _) fun _ => .pure _
  cases a with
  | illegal => exact .pure _
  | set rd value => exact hset rd value
  | jump npc => exact hjump npc
  | link rd ret npc =>
      exact .ite (hraise npc _) (.bind (onCore_sync _) fun _ => hjump npc)
  | branch npc => exact .ite (hraise npc _) (hjump npc)
  | access op rd => exact absurd rfl (ha op rd)
  | csr a value old rd => exact .bind (onCore_sync _) fun _ => .ite (hset rd old) (.pure _)
  | ecall | ebreak => exact .bind (onCore_sync _) fun _ => .pure _
  | mret | sret => exact .bind (onCore_sync _) fun _ => .ite (.pure _) (.pure _)
  | sfence vaddr asid =>
      exact .bind (sfenceVma_sync vaddr asid) fun _ => .ite (.pure _) (.pure _)

/-- An access looks at the memory only for its result. -/
theorem MemOp.exec_alike (op : MemOp) (rd : BitVec 5) {c : RV64Core} {s s' : MMUSys β}
    (hn : c.needTrap = false)
    (h : Run.result ((op.perform c.mmuEnv).run s) = Run.result ((op.perform c.mmuEnv).run s')) :
    Alike SameCore ((op.exec rd).run ⟨c, s⟩) ((op.exec rd).run ⟨c, s'⟩) := by
  rw [op.run_exec rd (m := ⟨c, s⟩) hn, op.run_exec rd (m := ⟨c, s'⟩) hn]
  cases hr : (op.perform c.mmuEnv).run s <;> cases hr' : (op.perform c.mmuEnv).run s' <;>
    rw [hr, hr'] at h <;> cases h <;> exact ⟨rfl, rfl⟩

end Sync

/-! ## How a fetch ends -/

/-- The end of the fetch of a step: the word to be executed, the cause of a trap, or an
assertion. -/
inductive FetchEnd where
  | word (inst : BitVec 32)
  | fault (cause : BitVec 63)
  | aborts (e : Abort)

namespace FetchEnd

/-- The ends make no difference to a step whose instruction asks for `a`. -/
def Same (a : Action) : FetchEnd → FetchEnd → Prop
  | word inst, word inst' => a ≠ .illegal ∨ inst = inst'
  | fault cause, fault cause' => cause = cause'
  | aborts e, aborts e' => e = e'
  | _, _ => False

end FetchEnd

section Step

variable {β : Type} [MMIOBus β] {m m' : Machine β}

/-- The end of the fetch of the step from `m`. -/
def Machine.fetchEnd (m : Machine β) : FetchEnd :=
  match m.fetch with
  | .ok r _ =>
      if r.1 ≠ .accessOk then .fault (fetchCause r.1)
      else .word ((Bytes.toWord r.2).setWidth 32)
  | .error e _ => .aborts e

/-- The rest of a step whose fetch failed. -/
def fetchFault (cause : BitVec 63) (pc : Word) : Exec β FuncReturnFeedback := do
  cassert (cause ≠ 0) .fetchCause
  onCore (raiseTrap (Cause.mk cause false) pc)
  onCore (stepExit 0 false .plain)

/-- The ends of a fetch, with the fetch. -/
inductive Machine.EndsFetch (m : Machine β) : FetchEnd → Prop where
  | word (buf : List Byte) (s : MMUSys β) (h : m.fetch = .ok (.accessOk, buf) s) :
      EndsFetch m (.word ((Bytes.toWord buf).setWidth 32))
  | fault (feedback : VAddrRWFeedback) (buf : List Byte) (s : MMUSys β)
      (h : m.fetch = .ok (feedback, buf) s) (hfb : feedback ≠ .accessOk) :
      EndsFetch m (.fault (fetchCause feedback))
  | aborts (e : Abort) (s : MMUSys β) (h : m.fetch = .error e s) : EndsFetch m (.aborts e)

theorem endsFetch_fetchEnd (m : Machine β) : m.EndsFetch m.fetchEnd := by
  unfold Machine.fetchEnd
  cases hf : m.fetch with
  | error e s => exact .aborts e s hf
  | ok r s =>
      obtain ⟨feedback, buf⟩ := r
      dsimp only
      split
      · exact .fault feedback buf s hf ‹_›
      · obtain rfl : feedback = .accessOk := not_not.mp ‹_›
        exact .word buf s hf

theorem run_of_word (hm : m.Fetches) {inst : BitVec 32} (h : m.fetchEnd = .word inst) :
    ∃ s, fetchInst.run m = .ok (some inst) ⟨m.begun, s⟩ := by
  have hends := endsFetch_fetchEnd m
  rw [h] at hends
  cases hends with
  | word buf s hf =>
      rw [run_fetchInst hm, hf]
      exact ⟨s, rfl⟩

theorem run_of_fault (hm : m.Fetches) {cause : BitVec 63} (h : m.fetchEnd = .fault cause) :
    ∃ s, stepCoreAPI.run m
      = (fetchFault cause m.begun.currentProgramCounter).run ⟨m.begun, s⟩ := by
  have hends := endsFetch_fetchEnd m
  rw [h] at hends
  cases hends with
  | fault feedback buf s hf hfb =>
      refine ⟨s, ?_⟩
      rw [stepCoreAPI, EStateM.run_bind, run_fetchInst hm, hf]
      simp only [if_pos hfb, fetchFault, EStateM.run_bind, run_cassert]
      by_cases hc : fetchCause feedback ≠ 0
      · simp only [if_pos hc]
        cases (onCore (β := β) (raiseTrap (Cause.mk (fetchCause feedback) false)
          m.begun.currentProgramCounter)).run ⟨m.begun, s⟩ <;> rfl
      · simp only [if_neg hc]

theorem run_of_aborts (hm : m.Fetches) {e : Abort} (h : m.fetchEnd = .aborts e) :
    ∃ s, stepCoreAPI.run m = .error e ⟨m.begun, s⟩ := by
  have hends := endsFetch_fetchEnd m
  rw [h] at hends
  cases hends with
  | aborts e s hf =>
      rw [stepCoreAPI, EStateM.run_bind, run_fetchInst hm, hf]
      exact ⟨s, rfl⟩

/-! ## What the end of a fetch shows of itself -/

/-- The assertions behind a fetch that failed. -/
def lateAborts : List Abort := [.fetchCause, .causeOk, .fetchFaultAtTrapVector, .statusBlank]

/-- A failed fetch shows in the trap, or fails the assertion that it has a cause. -/
theorem outcome_of_fault (hm : m.Fetches) {cause : BitVec 63} (h : m.fetchEnd = .fault cause) :
    (cause = 0 ∧ Run.result (stepCoreAPI.run m) = .error .fetchCause ∧
        (Run.final (stepCoreAPI.run m)).core.trapLog = []) ∨
      (cause ≠ 0 ∧ (Run.final (stepCoreAPI.run m)).core.trapLog
          = [(Cause.mk cause false, m.begun.currentProgramCounter)] ∧
        ∀ e, Run.result (stepCoreAPI.run m) = .error e → e ∈ lateAborts.tail) := by
  obtain ⟨s, hrun⟩ := run_of_fault hm h
  rw [hrun]
  by_cases hc : cause ≠ 0
  · refine .inr ⟨hc, ?_⟩
    simp only [fetchFault, EStateM.run_bind, run_cassert, if_pos hc]
    have hraise := run_raiseTrap (needTrap_begun m) (Cause.mk cause false)
      m.begun.currentProgramCounter
    split at hraise
    · rw [run_onCore_error (m := ⟨m.begun, s⟩) hraise]
      refine ⟨rfl, ?_⟩
      rintro e ⟨⟩
      decide
    split at hraise
    · rw [run_onCore_error (m := ⟨m.begun, s⟩) hraise]
      refine ⟨trapLog_trapped _ _ _, ?_⟩
      rintro e ⟨⟩
      decide
    · rw [run_onCore_ok (m := ⟨m.begun, s⟩) hraise]
      have hexit := run_exit
        (m := ⟨m.begun.trapped (Cause.mk cause false) m.begun.currentProgramCounter, s⟩) 0 false
        .plain fun hill => absurd hill Bool.false_ne_true
      rw [atExit_legal rfl] at hexit
      rcases hexit with hr | hr <;> simp only [hr]
      · refine ⟨trapLog_trapped _ _ _, ?_⟩
        rintro e ⟨⟩
      · refine ⟨trapLog_trapped _ _ _, ?_⟩
        rintro e ⟨⟩
        decide
  · left
    simp only [fetchFault, EStateM.run_bind, run_cassert, if_neg hc]
    exact ⟨not_not.mp hc, rfl, rfl⟩

/-- The cause of a failed fetch is that of a page or of an access. -/
theorem cause_of_fault {cause : BitVec 63} (h : m.fetchEnd = .fault cause) (hc : cause ≠ 0) :
    ∃ e ∈ decodeCauses, e ≠ .illegalInstr ∧ cause = e.val := by
  have hends := endsFetch_fetchEnd m
  rw [h] at hends
  cases hends with
  | fault feedback buf s hf hfb =>
      cases feedback with
      | accessOk => exact absurd rfl hfb
      | misAlign => exact absurd rfl hc
      | pageFault => exact ⟨.instrPgfault, by decide, by decide, rfl⟩
      | accessFault => exact ⟨.instrAccFault, by decide, by decide, rfl⟩

theorem outcome_of_aborts (hbus : BusAborts β) (hm : m.Fetches) {e : Abort}
    (h : m.fetchEnd = .aborts e) :
    Run.result (stepCoreAPI.run m) = .error e ∧ e ∉ lateAborts := by
  obtain ⟨s, hrun⟩ := run_of_aborts hm h
  refine ⟨by rw [hrun]; rfl, ?_⟩
  have hread (addr size : Word) (buffer : List Byte) : AbortsIn (· ∉ lateAborts)
      (MMIOBus.paddrReadBuffer addr size buffer : EStateM Abort β _) := fun b =>
    (hbus.read addr size buffer b).mono (fun _ _ h => h) fun e _ he => by
      cases e <;> first | decide | cases he
  have hends := endsFetch_fetchEnd m
  rw [h] at hends
  cases hends with
  | aborts e s hf => exact (vaddrInstFetch_abortsIn hread (by decide) _ _ _ _ _).error hf

/-- A compressed instruction whose data access, if it has one, returns. -/
theorem outcome_of_word (hm : m.Fetches) {inst : BitVec 32} (h : m.fetchEnd = .word inst)
    (hcomp : isCompressedInst inst = true)
    (hdata : ∀ s, fetchInst.run m = .ok (some inst) ⟨m.begun, s⟩ → ∀ op rd,
      action inst m.begun = .access op rd →
      ∃ r, Run.result ((op.perform m.begun.mmuEnv).run s) = .ok r) :
    (∀ e, Run.result (stepCoreAPI.run m) = .error e → e = .statusBlank) ∧
      ∃ flags c, Ends m.begun (action inst m.begun) flags c ∧
        (Run.final (stepCoreAPI.run m)).core
          = (c.atExit inst flags).retire (isCompressedInst inst) flags := by
  obtain ⟨s, hf⟩ := run_of_word hm h
  cases ha : ((action inst m.begun).exec).run ⟨m.begun, s⟩ with
  | ok flags m₁ =>
      obtain ⟨hends, hfinal⟩ := final_of_action hf ha
      refine ⟨?_, flags, m₁.core, hends, by rw [hfinal]⟩
      rw [run_stepCoreAPI_of_action hf, ha]
      rcases run_exit inst (isCompressedInst inst) flags (hends.needTrap (needTrap_begun m))
        with hr | hr <;> simp only [hr] <;> rintro e ⟨⟩
      rfl
  | error e m₁ =>
      have heffect := (action_decodes inst m.begun).effect (m := ⟨m.begun, s⟩) (needTrap_begun m)
      rw [ha] at heffect
      cases heffect with
      | csrAborts value hwrite =>
          rw [csrWriteOf, hcomp] at hwrite
          cases hwrite
      | memAborts op rd e s' hop hperform =>
          obtain ⟨r, hr⟩ := hdata s hf op rd (action_of_memOp hop)
          rw [hperform] at hr
          cases hr

/-! ## The halfword at the PC -/

/-- The halfword at the PC can be fetched and is `w`, and a fetch of four bytes in one
piece finds it there. -/
structure Machine.LowHalf (m : Machine β) (w : BitVec 16) : Prop where
  fetchable : ∃ s, (MMUSys.instFetchWhole m.begun.mmuEnv m.begun.currentProgramCounter 2
    ((Bytes.ofWord 4 0).take 2)).run m.clearLogs.mem = .ok (.accessOk, Bytes.ofWord 2 (w.setWidth 64)) s
  whole : m.begun.currentProgramCounter % 4 ≠ 2 → ∀ buf s, m.fetch = .ok (.accessOk, buf) s →
    buf.take 2 = Bytes.ofWord 2 (w.setWidth 64)

theorem even_of_fetched {env : MMUEnv} {begin_addr size : Word} {buffer : List Byte}
    {r : VAddrRWFeedback × List Byte} {s s' : MMUSys β}
    (h : (MMUSys.instFetchWhole env begin_addr size buffer).run s = .ok r s') :
    begin_addr % 2 = 0 := by
  by_contra hodd
  rw [MMUSys.instFetchWhole, EStateM.run_bind, run_cassert, if_neg hodd] at h
  cases h

theorem Machine.LowHalf.even {w : BitVec 16} (h : m.LowHalf w) :
    m.begun.currentProgramCounter % 2 = 0 :=
  let ⟨_, hlow⟩ := h.fetchable
  even_of_fetched hlow

theorem Machine.LowHalf.take {w : BitVec 16} (h : m.LowHalf w) {buf : List Byte} {s : MMUSys β}
    (hf : m.fetch = .ok (.accessOk, buf) s) : buf.take 2 = Bytes.ofWord 2 (w.setWidth 64) := by
  by_cases hsplit : m.begun.currentProgramCounter % 4 = 2
  · obtain ⟨s₁, hlow⟩ := h.fetchable
    rw [Machine.fetch, MMUSys.vaddrInstFetch, if_pos ⟨rfl, hsplit⟩, EStateM.run_bind, hlow] at hf
    simp only [ne_eq, not_true_eq_false, if_false, EStateM.run_bind] at hf
    split at hf
    · rename_i r s₂ hhigh
      obtain ⟨fb, high⟩ := r
      cases hf
      rw [List.take_append_of_le_length (by simp [Bytes.ofWord])]
      exact List.take_of_length_le (by simp [Bytes.ofWord])
    · cases hf
  · exact h.whole hsplit buf s hf

/-- A word whose first two bytes are those of a halfword ends in it. -/
theorem exists_append_of_take {buf : List Byte} {w : BitVec 16}
    (h : buf.take 2 = Bytes.ofWord 2 (w.setWidth 64)) :
    ∃ hi : BitVec 16, (Bytes.toWord buf).setWidth 32 = hi ++ w := by
  refine ⟨((Bytes.toWord buf).setWidth 32).extractLsb' 16 16, ?_⟩
  apply BitVec.eq_of_getLsbD_eq
  intro i hi
  rw [BitVec.getLsbD_append, BitVec.getLsbD_extractLsb']
  split
  · rename_i hlow
    have hbyte : buf.getD (i / 8) 0 = Bytes.byte (i / 8) ((w.setWidth 64).setWidth (8 * 2)) := by
      rw [← Bytes.getD_ofWord (by omega), ← h]
      simp [List.getD, show i / 8 < 2 by omega]
    rw [BitVec.getLsbD_setWidth, Bytes.getLsbD_toWord, hbyte]
    have hmod : i % 8 < 8 := Nat.mod_lt _ (by decide)
    have hadd : 8 * (i / 8) + i % 8 = i := by omega
    simp [Bytes.byte, hi, hlow, hmod, hadd, show i < 64 by omega]
  · rename_i hhigh
    have hsub : i - 16 < 16 := by omega
    have hadd : 16 + (i - 16) = i := by omega
    simp [hsub, hadd, hi]

/-- The word that a step executes ends in the halfword at its PC. -/
theorem Machine.LowHalf.word {w : BitVec 16} (h : m.LowHalf w) {inst : BitVec 32}
    (hend : m.fetchEnd = .word inst) : ∃ hi : BitVec 16, inst = hi ++ w := by
  have hends := endsFetch_fetchEnd m
  rw [hend] at hends
  cases hends with
  | word buf s hf => exact exists_append_of_take (h.take hf)

/-! ### On RAM -/

theorem readAt_ok {kind : AccessKind} {addr size : Word} {buf data : List Byte}
    {s s' : MMUSys β} (h : (MMUSys.readAt kind addr size buf).run s = .ok (.accessOk, data) s') :
    ∃ b, (MMIOBus.paddrReadBuffer addr size buf).run s.sysBus = .ok (.ok, data) b := by
  rw [MMUSys.readAt, busRead, EStateM.run_bind, run_busCall] at h
  cases hr : (MMIOBus.paddrReadBuffer addr size buf).run s.sysBus with
  | error e b =>
      rw [hr] at h
      cases h
  | ok r b =>
      obtain ⟨fb, data'⟩ := r
      rw [hr] at h
      cases fb <;> cases h
      exact ⟨b, rfl⟩

/-- A lookup does not see the size of an access. -/
theorem RAMBus.read_take {b b₁ b₂ : RAMBus} {addr : Word} {buf buf' low all : List Byte}
    (hlow : (MMIOBus.paddrReadBuffer addr 2 buf).run b = .ok (.ok, low) b₁)
    (hall : (MMIOBus.paddrReadBuffer addr 4 buf').run b = .ok (.ok, all) b₂) :
    all.take 2 = low := by
  rw [RAMBus.run_read] at hlow hall
  cases hdev : (b.findDevAccordingToAddr addr).1 with
  | none =>
      rw [hdev] at hlow
      cases hlow
  | some d =>
      rw [hdev] at hlow hall
      dsimp only at hlow hall
      split at hlow
      · split at hall
        · cases hlow
          cases hall
          rfl
        · cases hall
      · cases hlow

/-- Neither a whole fetch from an aligned address nor its low half crosses a page, so the two take
one way to the bus. -/
theorem instFetchWhole_take {env : MMUEnv} {addr : Word} (haddr : addr % 4 = 0)
    {buf buf' low all : List Byte} {s s₁ s₂ : MMUSys RAMBus}
    (hlow : (MMUSys.instFetchWhole env addr 2 buf).run s = .ok (.accessOk, low) s₁)
    (hall : (MMUSys.instFetchWhole env addr 4 buf').run s = .ok (.accessOk, all) s₂) :
    all.take 2 = low := by
  have hat {paddr : Word} {s : MMUSys RAMBus}
      (hlow : (MMUSys.readAt .fetch paddr 2 buf).run s = .ok (.accessOk, low) s₁)
      (hall : (MMUSys.readAt .fetch paddr 4 buf').run s = .ok (.accessOk, all) s₂) :
      all.take 2 = low := by
    obtain ⟨b₁, hr₁⟩ := readAt_ok hlow
    obtain ⟨b₂, hr₂⟩ := readAt_ok hall
    exact RAMBus.read_take hr₁ hr₂
  have heven := even_of_fetched hlow
  have hpaged : MMUSys.pagedAddr (β := RAMBus) env addr 4 .misAlign .pageFault (fetchCheck env)
      = MMUSys.pagedAddr env addr 2 .misAlign .pageFault (fetchCheck env) := by
    have hin2 : InPage addr 2 := .of_aligned (by decide) heven
    have hin4 : InPage addr 4 := .of_aligned (by decide) haddr
    rw [InPage] at hin2 hin4
    rw [MMUSys.pagedAddr, MMUSys.pagedAddr, if_neg (not_not.mpr hin4), if_neg (not_not.mpr hin2)]
  rw [MMUSys.instFetchWhole, cassert, if_pos heven, pure_bind] at hlow hall
  split at hlow
  · rw [if_pos ‹_›] at hall
    exact hat hlow hall
  · rw [if_neg ‹_›, hpaged, EStateM.run_bind] at hall
    rw [EStateM.run_bind] at hlow
    cases hr : (MMUSys.pagedAddr env addr 2 .misAlign .pageFault (fetchCheck env)).run s with
    | error e s' =>
        rw [hr] at hlow
        cases hlow
    | ok r s' =>
        rw [hr] at hlow hall
        cases r with
        | error fault =>
            cases hlow
            refine absurd rfl ((pagedAddr_fault (P := fun f => f ≠ .accessOk) (by decide) (by decide)
              (fun e f h => ?_) s).ok hr _ rfl)
            rw [fetchCheck_fault h]
            decide
        | ok paddr => exact hat hlow hall

/-- On RAM a fetch in one piece finds the halfword that a fetch of it alone does. -/
theorem Machine.LowHalf.of_ram {m : Machine RAMBus} {w : BitVec 16} {s : MMUSys RAMBus}
    (h : (MMUSys.instFetchWhole m.begun.mmuEnv m.begun.currentProgramCounter 2
      ((Bytes.ofWord 4 0).take 2)).run m.clearLogs.mem
        = .ok (.accessOk, Bytes.ofWord 2 (w.setWidth 64)) s) : m.LowHalf w := by
  refine ⟨⟨s, h⟩, fun hno buf s' hf => ?_⟩
  rw [Machine.fetch, MMUSys.vaddrInstFetch, if_neg fun hsplit => hno hsplit.2] at hf
  exact instFetchWhole_take (aligned_of_even (even_of_fetched h) hno) h hf

/-! ## Two machines that differ in the upper half -/

/-- The data access `op` of the step from `m`, if it gets as far, returns `r`. -/
def Machine.DataEnds (m : Machine β) (op : MemOp) (r : Except ExecFeedbackCode Word) : Prop :=
  ∀ inst s, fetchInst.run m = .ok (some inst) ⟨m.begun, s⟩ →
    Run.result ((op.perform m.begun.mmuEnv).run s) = .ok r

/-- Two machines with one core and the compressed instruction `w` at its PC, which answer
its data access alike.  What follows the instruction may differ, and whether it can be
fetched. -/
structure Twins (m m' : Machine β) (w : BitVec 16) : Prop where
  core : m.core = m'.core
  low : m.LowHalf w
  low' : m'.LowHalf w
  data : ∀ op rd, action (0#16 ++ w) m.begun = .access op rd →
    ∃ r, m.DataEnds op r ∧ m'.DataEnds op r

theorem Twins.begun {w : BitVec 16} (h : Twins m m' w) : m.begun = m'.begun := by
  rw [Machine.begun, Machine.begun, Machine.clearLogs, Machine.clearLogs, h.core]

theorem Twins.symm {w : BitVec 16} (h : Twins m m' w) : Twins m' m w := by
  refine ⟨h.core.symm, h.low', h.low, fun op rd ha => ?_⟩
  obtain ⟨r, hr, hr'⟩ := h.data op rd (h.begun ▸ ha)
  exact ⟨r, hr', hr⟩

theorem Twins.fetches {w : BitVec 16} (h : Twins m m' w) (hm : m.Fetches) : m'.Fetches := by
  rw [Machine.Fetches, ← h.begun]
  exact hm

/-- The end of a fetched step of the first machine. -/
theorem Twins.outcome_of_word {w : BitVec 16} (hw : Compressed.quadrant w ≠ 0b11#2)
    (h : Twins m m' w) (hm : m.Fetches) {inst : BitVec 32} (hend : m.fetchEnd = .word inst) :
    (∀ e, Run.result (stepCoreAPI.run m) = .error e → e = .statusBlank) ∧
      ∃ flags c, Ends m.begun (action (0#16 ++ w) m.begun) flags c ∧
        (Run.final (stepCoreAPI.run m)).core
          = (c.atExit inst flags).retire (isCompressedInst inst) flags := by
  obtain ⟨hi, rfl⟩ := h.low.word hend
  have haction := action_append hi 0#16 hw m.begun
  have hout := MEmu.outcome_of_word hm hend (isCompressedInst_append hi hw)
    fun s hf op rd ha => by
      obtain ⟨r, hr, -⟩ := h.data op rd (haction ▸ ha)
      exact ⟨r, hr _ s hf⟩
  rwa [haction] at hout

/-! ## The two directions -/

/-- The rest of a step that takes an interrupt. -/
def interruptTaken (int_type : IntType) : Exec β FuncReturnFeedback := do
  onCore (raiseTrap (Cause.int int_type) 0)
  onCore (stepExit 0 false .plain)

theorem run_of_interrupt {int_type : IntType} (h : m.begun.intTaken = some int_type) :
    stepCoreAPI.run m = (interruptTaken int_type).run ⟨m.begun, m.clearLogs.mem⟩ := by
  have hpre : preExec.run m.clearLogs.core = (raiseTrap (Cause.int int_type) 0).run m.begun := by
    rw [run_preExec, ← Machine.begun.eq_1, h]
  simp only [stepCoreAPI, fetchInst, interruptTaken, EStateM.run_bind, EStateM.run_modify,
    EStateM.run_get]
  rcases raiseTrap_cases (needTrap_begun m) (Cause.int int_type) 0 with hr | ⟨e, c, hr, -⟩
  · rw [run_onCore_ok (m := m.clearLogs) (hpre.trans hr),
      run_onCore_ok (m := ⟨m.begun, m.clearLogs.mem⟩) hr]
    simp only [needTrap_trapped, if_true]
    rfl
  · rw [run_onCore_error (m := m.clearLogs) (hpre.trans hr),
      run_onCore_error (m := ⟨m.begun, m.clearLogs.mem⟩) hr]

/-- A step that takes an interrupt looks at the core alone. -/
theorem Twins.alike_of_interrupt {w : BitVec 16} (h : Twins m m' w) (hm : ¬m.Fetches) :
    Alike SameCore (stepCoreAPI.run m) (stepCoreAPI.run m') := by
  cases hint : m.begun.intTaken with
  | none => exact absurd ⟨hint, h.low.even⟩ hm
  | some int_type =>
      rw [run_of_interrupt hint, run_of_interrupt (h.begun ▸ hint), h.begun]
      exact Sync.bind (onCore_sync _) (fun _ => onCore_sync _) ⟨m'.begun, _⟩ ⟨m'.begun, _⟩ rfl

/-- The execute parts of two fetched steps. -/
theorem Twins.exec_alike {w hi hi' : BitVec 16} (hw : Compressed.quadrant w ≠ 0b11#2)
    (h : Twins m m' w) {s s' : MMUSys β}
    (hf : fetchInst.run m = .ok (some (hi ++ w)) ⟨m.begun, s⟩)
    (hf' : fetchInst.run m' = .ok (some (hi' ++ w)) ⟨m'.begun, s'⟩) :
    Alike SameCore ((action (hi ++ w) m.begun).exec.run ⟨m.begun, s⟩)
      ((action (hi' ++ w) m'.begun).exec.run ⟨m'.begun, s'⟩) := by
  rw [action_append hi 0#16 hw, action_append hi' 0#16 hw, ← h.begun]
  by_cases hop : ∃ op rd, action (0#16 ++ w) m.begun = .access op rd
  · obtain ⟨op, rd, ha⟩ := hop
    obtain ⟨r, hr, hr'⟩ := h.data op rd ha
    have hres := hr _ s hf
    have hres' := hr' _ s' hf'
    rw [← h.begun] at hres'
    rw [ha]
    exact op.exec_alike rd (needTrap_begun m) (hres.trans hres'.symm)
  · exact Action.exec_sync (fun op rd ha => hop ⟨op, rd, ha⟩) ⟨m.begun, s⟩ ⟨m.begun, s'⟩ rfl

/-- Two fetched steps, of one word where the instruction is illegal. -/
theorem Twins.alike_of_words {w hi hi' : BitVec 16} (hw : Compressed.quadrant w ≠ 0b11#2)
    (h : Twins m m' w) {s s' : MMUSys β}
    (hf : fetchInst.run m = .ok (some (hi ++ w)) ⟨m.begun, s⟩)
    (hf' : fetchInst.run m' = .ok (some (hi' ++ w)) ⟨m'.begun, s'⟩)
    (hsame : action (0#16 ++ w) m.begun ≠ .illegal ∨ hi ++ w = hi' ++ w) :
    Alike SameCore (stepCoreAPI.run m) (stepCoreAPI.run m') := by
  obtain ⟨hresult, hfinal⟩ := h.exec_alike hw hf hf'
  rw [run_stepCoreAPI_of_action hf, run_stepCoreAPI_of_action hf']
  cases hr : (action (hi ++ w) m.begun).exec.run ⟨m.begun, s⟩ with
  | error e m₁ =>
      cases hr' : (action (hi' ++ w) m'.begun).exec.run ⟨m'.begun, s'⟩ <;>
        rw [hr, hr'] at hresult hfinal <;> cases hresult
      exact ⟨rfl, hfinal⟩
  | ok flags m₁ =>
      cases hr' : (action (hi' ++ w) m'.begun).exec.run ⟨m'.begun, s'⟩ <;>
        rw [hr, hr'] at hresult hfinal <;> cases hresult
      have hends := (final_of_action hf hr).1
      dsimp only
      rw [isCompressedInst_append hi hw, isCompressedInst_append hi' hw]
      refine stepExit_sync true (fun hill => hsame.resolve_left (not_not.mpr ?_)) _ _ hfinal
      rw [← action_append hi 0#16 hw]
      exact hends.illegal_iff.mp hill

/-- Fetches that end alike leave the step nothing to differ in. -/
theorem Twins.alike {w : BitVec 16} (hw : Compressed.quadrant w ≠ 0b11#2) (h : Twins m m' w)
    (hm : m.Fetches) (hsame : m.fetchEnd.Same (action (0#16 ++ w) m.begun) m'.fetchEnd) :
    Alike SameCore (stepCoreAPI.run m) (stepCoreAPI.run m') := by
  have hm' := h.fetches hm
  cases hend : m.fetchEnd <;> cases hend' : m'.fetchEnd <;> rw [hend, hend'] at hsame <;>
    first | exact hsame.elim | skip
  case word.word inst inst' =>
    obtain ⟨hi, rfl⟩ := h.low.word hend
    obtain ⟨hi', rfl⟩ := h.low'.word hend'
    obtain ⟨s, hf⟩ := run_of_word hm hend
    obtain ⟨s', hf'⟩ := run_of_word hm' hend'
    exact h.alike_of_words hw hf hf' hsame
  case fault.fault cause cause' =>
    obtain rfl : cause = cause' := hsame
    obtain ⟨s, hr⟩ := run_of_fault hm hend
    obtain ⟨s', hr'⟩ := run_of_fault hm' hend'
    rw [hr, hr', h.begun]
    have hrest : Sync (SameCore (β := β)) (fetchFault cause m'.begun.currentProgramCounter)
        (fetchFault cause m'.begun.currentProgramCounter) :=
      .bind (.ite (.pure _) (.throw _)) fun _ => .bind (onCore_sync _) fun _ => onCore_sync _
    exact hrest ⟨m'.begun, s⟩ ⟨m'.begun, s'⟩ rfl
  case aborts.aborts e e' =>
    obtain rfl : e = e' := hsame
    obtain ⟨s, hr⟩ := run_of_aborts hm hend
    obtain ⟨s', hr'⟩ := run_of_aborts hm' hend'
    rw [hr, hr', h.begun]
    exact ⟨rfl, rfl⟩

/-- The trap value of an illegal instruction is the word that was fetched. -/
theorem Twins.log_of_illegal {w : BitVec 16} (hw : Compressed.quadrant w ≠ 0b11#2)
    (h : Twins m m' w) (hm : m.Fetches) {inst : BitVec 32} (hend : m.fetchEnd = .word inst)
    (hill : action (0#16 ++ w) m.begun = .illegal) :
    (Run.final (stepCoreAPI.run m)).core.trapLog
      = [(Cause.exception .illegalInstr, inst.setWidth 64)] := by
  obtain ⟨-, flags, c, hends, hcore⟩ := h.outcome_of_word hw hm hend
  rw [hcore]
  rw [hill] at hends
  cases hends
  exact trapLog_trapped _ _ _

/-- A fetched step is not taken for one whose fetch failed. -/
theorem Twins.word_fault {w : BitVec 16} (hw : Compressed.quadrant w ≠ 0b11#2)
    (h : Twins m m' w) (hm : m.Fetches) {inst : BitVec 32} {cause : BitVec 63}
    (hend : m.fetchEnd = .word inst) (hend' : m'.fetchEnd = .fault cause) :
    ¬Alike SameCore (stepCoreAPI.run m) (stepCoreAPI.run m') := by
  rintro ⟨hresult, hfinal⟩
  obtain ⟨herror, flags, c, hends, hcore⟩ := h.outcome_of_word hw hm hend
  rcases outcome_of_fault (h.fetches hm) hend' with ⟨-, hres, -⟩ | ⟨hc, hlog, -⟩
  · exact absurd (herror _ (hresult.trans hres)) (by decide)
  · obtain ⟨e, he, hne, rfl⟩ := cause_of_fault hend' hc
    have hexit : (c.atExit inst flags).trapLog
        = [(Cause.exception e, m'.begun.currentProgramCounter)] := by
      have hlogs := (congrArg RV64Core.trapLog hfinal).trans hlog
      rwa [hcore] at hlogs
    refine hne ((hends.decode_mem_iff inst rfl he).mp ?_).2
    exact ⟨_, hexit ▸ List.mem_singleton_self _⟩

/-- A step that ends in its fetch is told from one that does not. -/
theorem Twins.word_aborts {w : BitVec 16} (hbus : BusAborts β)
    (hw : Compressed.quadrant w ≠ 0b11#2) (h : Twins m m' w) (hm : m.Fetches)
    {inst : BitVec 32} {e : Abort} (hend : m.fetchEnd = .word inst)
    (hend' : m'.fetchEnd = .aborts e) :
    ¬Alike SameCore (stepCoreAPI.run m) (stepCoreAPI.run m') := by
  rintro ⟨hresult, -⟩
  obtain ⟨hres, hlate⟩ := outcome_of_aborts hbus (h.fetches hm) hend'
  obtain rfl := (h.outcome_of_word hw hm hend).1 e (hresult.trans hres)
  exact hlate (by decide)

theorem Twins.fault_aborts {w : BitVec 16} (hbus : BusAborts β) (h : Twins m m' w)
    (hm : m.Fetches) {cause : BitVec 63} {e : Abort} (hend : m.fetchEnd = .fault cause)
    (hend' : m'.fetchEnd = .aborts e) :
    ¬Alike SameCore (stepCoreAPI.run m) (stepCoreAPI.run m') := by
  rintro ⟨hresult, -⟩
  obtain ⟨hres, hlate⟩ := outcome_of_aborts hbus (h.fetches hm) hend'
  rcases outcome_of_fault hm hend with ⟨-, hfault, -⟩ | ⟨-, -, hfault⟩
  · cases hfault.symm.trans (hresult.trans hres)
    exact hlate (by decide)
  · exact hlate (List.mem_of_mem_tail (hfault e (hresult.trans hres)))

/-- Steps that end alike had fetches that did. -/
theorem Twins.same {w : BitVec 16} (hbus : BusAborts β) (hw : Compressed.quadrant w ≠ 0b11#2)
    (h : Twins m m' w) (hm : m.Fetches)
    (halike : Alike SameCore (stepCoreAPI.run m) (stepCoreAPI.run m')) :
    m.fetchEnd.Same (action (0#16 ++ w) m.begun) m'.fetchEnd := by
  have hm' := h.fetches hm
  cases hend : m.fetchEnd <;> cases hend' : m'.fetchEnd
  case word.fault => exact h.word_fault hw hm hend hend' halike
  case fault.word => exact h.symm.word_fault hw hm' hend' hend halike.symm
  case word.aborts => exact h.word_aborts hbus hw hm hend hend' halike
  case aborts.word => exact h.symm.word_aborts hbus hw hm' hend' hend halike.symm
  case fault.aborts => exact h.fault_aborts hbus hm hend hend' halike
  case aborts.fault => exact h.symm.fault_aborts hbus hm' hend' hend halike.symm
  case word.word inst inst' =>
    refine or_iff_not_imp_left.mpr fun hill => ?_
    have hill := not_not.mp hill
    have hlog := h.log_of_illegal hw hm hend hill
    have hlog' := h.symm.log_of_illegal hw hm' hend' (h.begun ▸ hill)
    have htval : inst.setWidth 64 = inst'.setWidth 64 := by
      rw [← halike.final, hlog] at hlog'
      exact (Prod.mk.inj (List.cons.inj hlog').1).2
    bv_omega
  case fault.fault cause cause' =>
    show cause = cause'
    obtain ⟨hresult, hfinal⟩ := halike
    have hlogs := congrArg RV64Core.trapLog hfinal
    rcases outcome_of_fault hm hend with ⟨rfl, -, hlog⟩ | ⟨-, hlog, -⟩ <;>
      rcases outcome_of_fault hm' hend' with ⟨rfl, -, hlog'⟩ | ⟨-, hlog', -⟩ <;>
      rw [hlog, hlog'] at hlogs
    · exact absurd hlogs.symm (List.cons_ne_nil _ _)
    · exact absurd hlogs (List.cons_ne_nil _ _)
    · have hcause := congrArg Cause.cause (Prod.mk.inj (List.cons.inj hlogs).1).1
      rwa [Cause.cause_mk, Cause.cause_mk] at hcause
  case aborts.aborts e e' =>
    obtain ⟨hresult, -⟩ := halike
    rw [(outcome_of_aborts hbus hm hend).1, (outcome_of_aborts hbus hm' hend').1] at hresult
    exact Except.error.inj hresult

/-! ## The result -/

/-- The trap of a 32-bit instruction whose upper half faults names the PC. -/
theorem upper_fault_at_pc (hm : m.Fetches) {cause : BitVec 63} (hend : m.fetchEnd = .fault cause)
    (cause' : Word) : (cause', m.begun.currentProgramCounter + 2)
      ∉ (Run.final (stepCoreAPI.run m)).core.trapLog := by
  intro hmem
  rcases outcome_of_fault hm hend with ⟨-, -, hlog⟩ | ⟨-, hlog, -⟩ <;> rw [hlog] at hmem
  · exact absurd hmem List.not_mem_nil
  · have htval := (Prod.mk.inj (List.mem_singleton.mp hmem)).2
    bv_omega

/-- Two machines that differ in the upper half end their steps alike exactly where their
fetches end alike: fetched in both, and then of one word if the instruction is illegal, or
failed in both with one cause.  A 32-bit instruction whose upper half faults never has the
address of that half as its trap value. -/
theorem compressed_independent_iff (hbus : BusAborts β) :
    (∀ (m m' : Machine β) (w : BitVec 16), Compressed.quadrant w ≠ 0b11#2 → Twins m m' w →
      (Alike SameCore (stepCoreAPI.run m) (stepCoreAPI.run m') ↔
        (m.Fetches → m.fetchEnd.Same (action (0#16 ++ w) m.begun) m'.fetchEnd))) ∧
    ∀ (m : Machine β) (w : BitVec 16) (cause : BitVec 63), Compressed.quadrant w = 0b11#2 →
      m.LowHalf w → m.Fetches → m.fetchEnd = .fault cause →
        ∀ cause', (cause', m.begun.currentProgramCounter + 2)
          ∉ (Run.final (stepCoreAPI.run m)).core.trapLog := by
  refine ⟨fun m m' w hw h => ⟨fun halike hm => h.same hbus hw hm halike, fun hsame => ?_⟩,
    fun m w cause _ _ hm hend => upper_fault_at_pc hm hend⟩
  by_cases hm : m.Fetches
  · exact h.alike hw hm (hsame hm)
  · exact h.alike_of_interrupt hm

end Step

/-! ### On concrete machines -/

/-- A core at address 2 of a RAM with these bytes, which answers up to the address `last`. -/
def Machine.atHalf (last : Word) (bytes : List Byte) : Machine RAMBus :=
  let m := Machine.ofBytes { (default : RV64Core).reset with currentProgramCounter := 2 } bytes
  let ram := { MMIOMem.ofBytes bytes with addrRegionSize := last }
  { m with mem := { m.mem with sysBus := { m.mem.sysBus with obj := fun _ => ram } } }

/-- Two such machines on `c.nop`. -/
theorem nop_twins {last last' : Word} {bytes bytes' : List Byte}
    (h : (Machine.atHalf last bytes).LowHalf 0x0001)
    (h' : (Machine.atHalf last' bytes').LowHalf 0x0001) :
    Twins (.atHalf last bytes) (.atHalf last' bytes') 0x0001 := by
  refine ⟨rfl, h, h', fun op rd ha => ?_⟩
  have hnop : action (0#16 ++ 0x0001#16) (Machine.atHalf last bytes).begun = .set 0 0 := rfl
  cases hnop.symm.trans ha

/-- `c.nop` before two instructions, and `addi` whose upper half is refused. -/
theorem compressed_independent_iff_nop :
    Alike SameCore (stepCoreAPI.run (.atHalf 8 [0, 0, 0x01, 0, 0, 0]))
        (stepCoreAPI.run (.atHalf 8 [0, 0, 0x01, 0, 0x13, 0])) ∧
      ∀ cause', (cause', (Machine.atHalf 3 [0, 0, 0x13, 0, 0, 0]).begun.currentProgramCounter + 2)
        ∉ (Run.final (stepCoreAPI.run (.atHalf 3 [0, 0, 0x13, 0, 0, 0]))).core.trapLog := by
  obtain ⟨hiff, hnever⟩ := compressed_independent_iff RAMBus.busAborts
  constructor
  · have hlow : (Machine.atHalf 8 [0, 0, 0x01, 0, 0, 0]).LowHalf 0x0001 := .of_ram rfl
    have hlow' : (Machine.atHalf 8 [0, 0, 0x01, 0, 0x13, 0]).LowHalf 0x0001 := .of_ram rfl
    refine (hiff _ _ 0x0001 (by decide) (nop_twins hlow hlow')).mpr fun _ => ?_
    have hend : (Machine.atHalf 8 [0, 0, 0x01, 0, 0, 0]).fetchEnd = .word 0x00000001 := rfl
    have hend' : (Machine.atHalf 8 [0, 0, 0x01, 0, 0x13, 0]).fetchEnd = .word 0x00130001 := rfl
    rw [hend, hend']
    exact .inl Action.noConfusion
  · have hlow : (Machine.atHalf 3 [0, 0, 0x13, 0, 0, 0]).LowHalf 0x0013 := .of_ram rfl
    have hend : (Machine.atHalf 3 [0, 0, 0x13, 0, 0, 0]).fetchEnd = .fault 1 := rfl
    exact hnever _ 0x0013 1 (by decide) hlow ⟨rfl, rfl⟩ hend

/-- `c.nop` completes where the halfword after it can be fetched, and traps where it cannot. -/
theorem nop_reads_next_halfword :
    ¬∀ (m m' : Machine RAMBus) (w : BitVec 16), Compressed.quadrant w ≠ 0b11#2 → Twins m m' w →
      Alike SameCore (stepCoreAPI.run m) (stepCoreAPI.run m') := by
  intro h
  have hlow : (Machine.atHalf 8 [0, 0, 0x01, 0, 0, 0]).LowHalf 0x0001 := .of_ram rfl
  have hlow' : (Machine.atHalf 3 [0, 0, 0x01, 0, 0, 0]).LowHalf 0x0001 := .of_ram rfl
  have hcore := (h _ _ 0x0001 (by decide) (nop_twins hlow hlow')).final
  have hlog : ([] : List (Word × Word)) = [(Cause.exception .instrAccFault, 2)] :=
    congrArg RV64Core.trapLog hcore
  exact absurd hlog (by decide)

end MEmu
