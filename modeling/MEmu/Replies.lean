import MEmu.Acknowledge

/-!
# Replies

A request is a packet that `Debug_GDBStub` hands to its switch.  What the switch does with it is
known from the packet and the core: it replies once, it is silent where `G` or `M` succeeds, or it
does not come back.
-/

namespace MEmu

open Run (Sat Keeps AbortsIn)

/-- The reply that an event sends.  To send it again is no other reply. -/
def StubEvent.reply? : StubEvent → Option (List Byte)
  | sent frame => some frame
  | _ => none

namespace GDBStub

variable {γ : Type} {env : StubEnv} {s s₀ s' : Stub γ} {P Q : Prop}

/-- The replies that the stub has sent. -/
def replies (s : Stub γ) : List (List Byte) := s.log.filterMap StubEvent.reply?

/-- One more reply. -/
def OneReply (s s' : Stub γ) : Prop := ∃ data, replies s' = replies s ++ [packing data]

/-- There is one more reply if `P`, and none if not. -/
structure Replied (P : Prop) (s s' : Stub γ) : Prop where
  answered : P → OneReply s s'
  silent : ¬P → replies s' = replies s

/-- The same, where a continue that still steps the core has not come to it. -/
structure Ended (P : Prop) (s : Stub γ) (e : StubEnd) (s' : Stub γ) : Prop where
  running : e = .running → P
  unreachable : e = .unreachable → ¬P
  replied : e ≠ .running → Replied P s s'

/-- A computation that replies once if `P`, and is silent if not. -/
def Answers (P : Prop) (s₀ s : Stub γ) (x : StubM γ Unit) : Prop :=
  Sat s x (fun _ => Replied P s₀) (Ended P s₀)

/-! ## Computations that reply -/

/-- Where there should be no reply, silence is right. -/
theorem replied_of_silent (hP : ¬P) (h : replies s' = replies s) : Replied P s s' :=
  ⟨fun h => absurd h hP, fun _ => h⟩

/-- There is a reply exactly where there should be one. -/
theorem Replied.oneReply_iff (h : Replied P s s') : OneReply s s' ↔ P := by
  refine ⟨fun ⟨data, hone⟩ => ?_, h.answered⟩
  by_contra hP
  rw [h.silent hP] at hone
  simpa using congrArg List.length hone

/-- Conditions that say the same. -/
theorem Answers.congr {x : StubM γ Unit} (hPQ : Q ↔ P) (h : Answers P s₀ s x) :
    Answers Q s₀ s x := by
  rwa [propext hPQ]

/-- The end of a command without a reply. -/
theorem answers_silent (hP : ¬P) (h : replies s = replies s₀) :
    Answers P s₀ s (pure () : StubM γ Unit) :=
  replied_of_silent hP h

/-- A command that ends the session without a reply. -/
theorem answers_throw {e : StubEnd} (hP : ¬P) (he : e ≠ .running) (h : replies s = replies s₀) :
    Answers P s₀ s (throw e : StubM γ Unit) :=
  ⟨fun h => absurd h he, fun _ => hP, fun _ => replied_of_silent hP h⟩

theorem Grows.replies_eq (h : Grows (fun e => e.reply? = none) s s') : replies s' = replies s := by
  obtain ⟨events, hlog, hall⟩ := h
  rw [replies, hlog, List.filterMap_append, List.filterMap_eq_nil_iff.mpr hall, List.append_nil,
    replies]

/-- A read of a character ends only because nothing arrives. -/
theorem readByte_aborts : AbortsIn (· = .blocked) (readByte : StubM γ (Option Byte)) :=
  fun s => (readByte_sat s).mono (fun _ _ _ => trivial) fun _ _ h => h.1

/-- The wait for the acknowledgement ends only because nothing arrives. -/
theorem resend_aborts (buffer_to_send : List Byte) (left : Nat) (ack : Byte) :
    AbortsIn (· = .blocked) (resend buffer_to_send left ack : StubM γ Unit) := by
  induction left generalizing ack with
  | zero => exact .pure _
  | succ left ih =>
      exact .ite (.pure _) (.bind (.modifyGet _) fun _ => .bind readByte_aborts fun _ => ih _)

/-- `packingAndSend` sends its packet once, whatever the client makes of it. -/
theorem packingAndSend_replies (data : List Byte) (s : Stub γ) : Sat s (packingAndSend data)
    (fun _ s' => replies s' = replies s ++ [packing data])
    (fun e s' => e = .blocked ∧ replies s' = replies s ++ [packing data]) := by
  have hsent : replies { s with log := s.log ++ [.sent (packing data)] }
      = replies s ++ [packing data] := List.filterMap_append
  have hkeeps : Keeps (Grows fun e => e.reply? = none) (do
      let read ← readByte
      resend (packing data) 10 (read.getD (ch '-')) : StubM γ Unit) :=
    .bind (readByte_grows fun _ => rfl) fun _ =>
      resend_keeps (readByte_grows fun _ => rfl) (fun _ => emit_grows rfl) _ _ _
  have haborts : AbortsIn (· = .blocked) (do
      let read ← readByte
      resend (packing data) 10 (read.getD (ch '-')) : StubM γ Unit) :=
    .bind readByte_aborts fun _ => resend_aborts _ _ _
  refine .bind (.modify (((hkeeps _).and (haborts _)).mono (fun _ s' h => ?_) fun e s' h => ?_))
  · exact h.1.replies_eq.trans hsent
  · exact ⟨h.2, h.1.replies_eq.trans hsent⟩

/-- A command that sends its reply at the end. -/
theorem answers_send {data : List Byte} (hP : P) (h : replies s = replies s₀) :
    Answers P s₀ s (packingAndSend data) := by
  refine (packingAndSend_replies data s).mono (fun _ s' hs' => ?_) fun e s' hs' => ?_
  · rw [h] at hs'
    exact ⟨fun _ => ⟨data, hs'⟩, fun hno => absurd hP hno⟩
  · obtain ⟨rfl, hs'⟩ := hs'
    rw [h] at hs'
    exact ⟨nofun, nofun, fun _ => ⟨fun _ => ⟨data, hs'⟩, fun hno => absurd hP hno⟩⟩

/-! ## The core -/

/-- The core comes back. -/
def Returns {σ α : Type} (x : EStateM Abort σ α) (c : σ) : Prop := ∃ a c', x.run c = .ok a c'

/-- The core comes back with an error. -/
def Refuses {σ : Type} (x : EStateM Abort σ FuncReturnFeedback) (c : σ) : Prop :=
  ∃ fb c', x.run c = .ok fb c' ∧ fb ≠ .ok

/-- A command that ends in the core without a reply. -/
theorem ended_of_core {e : Abort} (hP : ¬P) (h : replies s' = replies s) :
    Ended P s (.core e) s' :=
  ⟨nofun, nofun, fun _ => replied_of_silent hP h⟩

/-- A call of the core that is answered only if the core refuses it. -/
theorem answers_refused {x : EStateM Abort (ProcessorCore γ) FuncReturnFeedback}
    (h : replies s = replies s₀) : Answers (Refuses x s.debuggedCore) s₀ s (do
      let feedback ← onDebuggedCore x
      if feedback ≠ .ok then sendError) := by
  refine Sat.bind (onDebuggedCore_sat (fun fb c hr => ?_) fun e c hr => ?_)
  · refine Sat.ite (fun hfb => answers_send ⟨fb, c, hr, hfb⟩ h) fun hfb => answers_silent ?_ h
    rintro ⟨fb', c', hr', hfb'⟩
    rw [hr] at hr'
    cases hr'
    exact hfb hfb'
  · refine ended_of_core ?_ h
    rintro ⟨fb', c', hr', -⟩
    rw [hr] at hr'
    cases hr'

/-- A call of the core that is answered, whatever it returns. -/
theorem answers_returned {α : Type} {x : EStateM Abort (ProcessorCore γ) α} {f : α → StubM γ Unit}
    (hf : ∀ a c, x.run s.debuggedCore = .ok a c →
      Answers (Returns x s.debuggedCore) s₀ { s with debuggedCore := c } (f a))
    (h : replies s = replies s₀) :
    Answers (Returns x s.debuggedCore) s₀ s (onDebuggedCore x >>= f) := by
  refine Sat.bind (onDebuggedCore_sat hf fun e c hr => ended_of_core ?_ h)
  rintro ⟨a, c', hr'⟩
  rw [hr] at hr'
  cases hr'

/-! ## The commands -/

variable {p : GdbRspPacket}

/-- A break point is answered. -/
theorem cmdBreakpoint_answers (hP : P) (change : Word → ProcessorCore γ → ProcessorCore γ)
    (h : replies s = replies s₀) : Answers P s₀ s (cmdBreakpoint change p) := by
  rw [cmdBreakpoint]
  split
  · exact Sat.ite (fun _ => answers_send hP h) fun _ => .bind (.modify (answers_send hP h))
  · exact answers_send hP h

variable [ProcessorCoreI γ]

/-- The registers of a `G`. -/
def setRegisters (digits : List Byte) : EStateM Abort (ProcessorCore γ) FuncReturnFeedback :=
  ProcessorCore.onCore (ProcessorCoreI.writeAllRegister
    (regsOfStream (digits.length / 16) 8 (parseByteStreamStr digits)))

/-- The memory of an `m`. -/
def readMemory (env : StubEnv) (addr len : List Byte) :
    EStateM Abort (ProcessorCore γ) (FuncReturnFeedback × List Byte) :=
  ProcessorCore.onCore (ProcessorCoreI.memRead (strtoll addr) (strtoll len)
    (List.replicate (strtoll len).toNat env.indeterminate))

/-- The memory of an `M`. -/
def writeMemory (addr len bytes : List Byte) :
    EStateM Abort (ProcessorCore γ) FuncReturnFeedback :=
  ProcessorCore.onCore
    (ProcessorCoreI.memWrite (strtoll addr) (strtoll len) (parseByteStreamStr bytes))

/-- `G` is answered where its digits are of whole registers and the core refuses them. -/
theorem cmdWriteAllRegister_answers (h : replies s = replies s₀) :
    Answers (∀ digits, p.paramList = [digits] → digits.length % 16 = 0 →
      Refuses (setRegisters digits) s.debuggedCore) s₀ s (cmdWriteAllRegister p) := by
  rw [cmdWriteAllRegister]
  split
  · rename_i digits hparams
    refine Answers.congr (P := digits.length % 16 = 0 → Refuses (setRegisters digits) s.debuggedCore) ?_ ?_
    · simp [hparams]
    · refine Sat.ite (fun hlen => answers_send (fun h => absurd h hlen) h) fun hlen => ?_
      have hlen : digits.length % 16 = 0 := not_not.mp hlen
      refine Sat.ite (fun hodd => absurd ?_ hodd) fun _ => ?_
      · omega
      · exact Answers.congr ⟨fun h => h hlen, fun h _ => h⟩ (answers_refused h)
  · rename_i hparams
    exact answers_send (fun digits hd => absurd hd (hparams digits)) h

/-- `m` is answered where the buffer fits the stack and the core returns the bytes. -/
theorem cmdMemRead_answers (h : replies s = replies s₀) :
    Answers (∀ addr len, p.paramList = [addr, len] →
      (strtoll len).toNat ≤ env.stackLimit.toNat ∧ Returns (readMemory env addr len) s.debuggedCore)
      s₀ s (cmdMemRead env p) := by
  rw [cmdMemRead]
  split
  · rename_i addr len hparams
    refine Answers.congr (P := (strtoll len).toNat ≤ env.stackLimit.toNat ∧
      Returns (readMemory env addr len) s.debuggedCore) ?_ ?_
    · simp [hparams]
    · refine Sat.ite (fun hlen => ?_) fun hlen => ?_
      · refine answers_throw (fun hP => absurd hP.1 (Nat.not_le.mpr hlen)) ?_ h
        intro he
        cases he
      · refine Answers.congr ⟨And.right, fun hr => ⟨Nat.not_lt.mp hlen, hr⟩⟩ ?_
        refine answers_returned (fun r c hr => ?_) h
        exact Sat.ite (fun _ => answers_send ⟨r, c, hr⟩ h) fun _ => answers_send ⟨r, c, hr⟩ h
  · rename_i hparams
    exact answers_send (fun addr len hal => absurd hal (hparams addr len)) h

/-- `M` is answered where the length is that of the digits and the core refuses the bytes. -/
theorem cmdMemWrite_answers (h : replies s = replies s₀) :
    Answers (∀ addr len bytes, p.paramList = [addr, len, bytes] →
      2 * strtoll len = BitVec.ofNat 64 bytes.length →
      Refuses (writeMemory addr len bytes) s.debuggedCore) s₀ s (cmdMemWrite p) := by
  rw [cmdMemWrite]
  split
  · rename_i addr len bytes hparams
    refine Answers.congr (P := 2 * strtoll len = BitVec.ofNat 64 bytes.length →
      Refuses (writeMemory addr len bytes) s.debuggedCore) ?_ ?_
    · simp [hparams]
    · refine Sat.ite (fun hlen => answers_send (fun h => absurd h hlen) h) fun hlen => ?_
      have hlen := not_not.mp hlen
      refine Sat.ite (fun hodd => absurd ?_ hodd) fun _ => ?_
      · have hmod := congrArg BitVec.toNat hlen
        rw [BitVec.toNat_mul, BitVec.toNat_ofNat] at hmod
        have htwo : BitVec.toNat (2 : Word) = 2 := rfl
        rw [htwo] at hmod
        omega
      · exact Answers.congr ⟨fun h => h hlen, fun h _ => h⟩ (answers_refused h)
  · rename_i hparams
    exact answers_send (fun addr len bytes h => absurd h (hparams addr len bytes)) h

/-- Up to a watch point, and for `n` steps, the core comes back. -/
def StepsReturn : Nat → ProcessorCore γ → Prop
  | 0, _ => True
  | n + 1, c => c.isCurrentPCAtWatchPoint = false →
      ∃ fb c', (ProcessorCore.onCore ProcessorCoreI.step).run c = .ok fb c' ∧ StepsReturn n c'

/-- A turn of the loop of `c`. -/
theorem run_runToWatchPoint (n : Nat) (c : ProcessorCore γ) : (runToWatchPoint (n + 1)).run c =
    if c.isCurrentPCAtWatchPoint then .ok true c
    else match (ProcessorCore.onCore ProcessorCoreI.step).run c with
      | .ok _ c' => (runToWatchPoint n).run c'
      | .error e c' => .error e c' := by
  rw [runToWatchPoint, EStateM.run_bind]
  show (if c.isCurrentPCAtWatchPoint then _ else _ : EStateM Abort (ProcessorCore γ) Bool).run c = _
  split
  · rfl
  · rw [EStateM.run_bind]
    split <;> rename_i hr <;> rw [hr]

/-- The loop comes to its end where each of its steps returns. -/
theorem stepsReturn_iff {n : Nat} {c : ProcessorCore γ} :
    StepsReturn n c ↔ Returns (runToWatchPoint n) c := by
  induction n generalizing c with
  | zero => exact iff_of_true trivial ⟨_, _, rfl⟩
  | succ n ih =>
      rw [StepsReturn, Returns, run_runToWatchPoint]
      cases c.isCurrentPCAtWatchPoint with
      | true => exact iff_of_true nofun ⟨true, c, rfl⟩
      | false =>
          cases hr : (ProcessorCore.onCore ProcessorCoreI.step).run c with
          | ok fb c' =>
              constructor
              · intro h
                obtain ⟨fb', c'', hstep, hrest⟩ := h rfl
                cases hstep
                exact ih.mp hrest
              · intro h _
                exact ⟨fb, c', rfl, ih.mpr h⟩
          | error e c' =>
              refine iff_of_false (fun h => ?_) nofun
              obtain ⟨fb', c'', hstep, -⟩ := h rfl
              cases hstep

/-- A continue replies when it stops. -/
theorem cmdContinue_answers (h : replies s = replies s₀) :
    Answers (p.paramList = [] → StepsReturn env.fuel s.debuggedCore) s₀ s
      (cmdContinue env p) := by
  refine Sat.ite (fun hparams => answers_send (fun hnil => ?_) h) fun hparams => ?_
  · exact absurd (congrArg List.length hnil) hparams
  · have hnil : p.paramList = [] := List.eq_nil_of_length_eq_zero (not_not.mp hparams)
    refine Answers.congr (P := Returns (runToWatchPoint env.fuel) s.debuggedCore) ?_
      (answers_returned (fun stopped c hr => ?_) h)
    · rw [← stepsReturn_iff]
      exact ⟨fun hr => hr hnil, fun hr _ => hr⟩
    refine Sat.ite (fun _ => answers_send ⟨stopped, c, hr⟩ h) fun _ => ?_
    exact ⟨fun _ => ⟨stopped, c, hr⟩, nofun, fun h => absurd rfl h⟩

/-! ## The switch -/

/-- The switch replies to the packet. -/
def Replying (env : StubEnv) (c : ProcessorCore γ) (p : GdbRspPacket) : Prop :=
  match p.packetType with
  | .cmdRegWriteAll => ∀ digits, p.paramList = [digits] → digits.length % 16 = 0 →
      Refuses (setRegisters digits) c
  | .cmdMemRead => ∀ addr len, p.paramList = [addr, len] →
      (strtoll len).toNat ≤ env.stackLimit.toNat ∧ Returns (readMemory env addr len) c
  | .cmdMemWrite => ∀ addr len bytes, p.paramList = [addr, len, bytes] →
      2 * strtoll len = BitVec.ofNat 64 bytes.length → Refuses (writeMemory addr len bytes) c
  | .cmdContinue => p.paramList = [] → StepsReturn env.fuel c
  | .emptyPacket => False
  | packetType => packetType.hasCase = true

/-- Every command of the switch is answered where it should be. -/
theorem command_answers (p : GdbRspPacket) (hcase : p.packetType.hasCase = true)
    (h : replies s = replies s₀) :
    Answers (Replying env s.debuggedCore p) s₀ s (command env p) := by
  obtain ⟨packetType, cmd, paramList⟩ := p
  cases packetType
  case cmdRegWriteAll => exact cmdWriteAllRegister_answers h
  case cmdMemRead => exact cmdMemRead_answers h
  case cmdMemWrite => exact cmdMemWrite_answers h
  case cmdContinue => exact cmdContinue_answers h
  case cmdInsertBreakpoint => exact cmdBreakpoint_answers hcase _ h
  case cmdRemoveBreakpoint => exact cmdBreakpoint_answers hcase _ h
  case emptyPacket => exact answers_silent id h
  case cmdQueryHaltReason => exact answers_send hcase h
  case cmdRegReadAll => exact .bind (.get (answers_send hcase h))
  case cmdQSupported => exact answers_send hcase h
  case cmdUnknown => exact answers_send hcase h
  all_goals cases hcase

/-- What the switch does with a packet, in all of its cases. -/
theorem dispatch_answers (env : StubEnv) (p : GdbRspPacket) (s : Stub γ) :
    Answers (Replying env s.debuggedCore p) s s (dispatch env p) := by
  rw [dispatch_eq]
  refine Sat.ite (fun hcase => .bind (.modify ?_)) fun hcase => ?_
  · refine command_answers (s := { s with log := s.log ++ [.ack] }) p hcase ?_
    exact (List.filterMap_append).trans (List.append_nil _)
  · refine answers_throw (fun hP => ?_) nofun rfl
    obtain ⟨packetType, cmd, paramList⟩ := p
    cases packetType <;> first | exact hcase rfl | cases hP

/-! ## Requests -/

/-- The packets that the stub replies to. -/
structure CanAnswer (env : StubEnv) (c : ProcessorCore γ) (data : List Byte) : Prop where
  /-- There is no case for `p`. -/
  regRead : ¬IsRegRead data
  /-- There is no reply to a `G` that succeeds. -/
  regWriteAll : ∀ digits, HasFields ['G'] [digits] data → digits.length % 16 = 0 →
    Refuses (setRegisters digits) c
  memRead : ∀ addr len, HasFields ['m', ','] [addr, len] data →
    (strtoll len).toNat ≤ env.stackLimit.toNat ∧ Returns (readMemory env addr len) c
  /-- There is no reply to an `M` that succeeds. -/
  memWrite : ∀ addr len bytes, HasFields ['M', ',', ':'] [addr, len, bytes] data →
    2 * strtoll len = BitVec.ofNat 64 bytes.length → Refuses (writeMemory addr len bytes) c
  continue_ : cString data = [ch 'c'] → StepsReturn env.fuel c

theorem canAnswer_iff {c : ProcessorCore γ} {data : List Byte} :
    CanAnswer env c data ↔ Replying env c (parsePacket data) := by
  have hG (digits : List Byte) : HasFields ['G'] [digits] data ↔ _ :=
    hasFields_iff (r := .cmdRegWriteAll) (by simp [packetTypeRegexStr]) rfl rfl (not_hexDigit rfl)
  have hm (addr len : List Byte) : HasFields ['m', ','] [addr, len] data ↔ _ :=
    hasFields_iff (r := .cmdMemRead) (by simp [packetTypeRegexStr]) rfl rfl (not_hexDigit rfl)
  have hM (addr len bytes : List Byte) : HasFields ['M', ',', ':'] [addr, len, bytes] data ↔ _ :=
    hasFields_iff (r := .cmdMemWrite) (by simp [packetTypeRegexStr]) rfl rfl (not_hexDigit rfl)
  constructor
  · intro h
    rw [Replying]
    split
    · rename_i htype
      exact fun digits hp => h.regWriteAll digits ((hG digits).mpr ⟨htype, hp⟩)
    · rename_i htype
      exact fun addr len hp => h.memRead addr len ((hm addr len).mpr ⟨htype, hp⟩)
    · rename_i htype
      exact fun addr len bytes hp =>
        h.memWrite addr len bytes ((hM addr len bytes).mpr ⟨htype, hp⟩)
    · rename_i htype
      exact fun hp => h.continue_ (parsePacket_continue.mpr ⟨htype, hp⟩)
    · rename_i htype
      exact absurd htype (packetType_ne_emptyPacket data)
    · exact Bool.eq_true_of_not_eq_false fun hcase => h.regRead (hasCase_parsePacket.mp hcase)
  · intro h
    refine ⟨fun hp => ?_, fun digits hp => ?_, fun addr len hp => ?_, fun addr len bytes hp => ?_,
      fun hp => ?_⟩
    · rw [Replying, packetType_regReadIndex.mpr hp] at h
      cases h
    · obtain ⟨htype, hparams⟩ := (hG digits).mp hp
      rw [Replying, htype] at h
      exact h digits hparams
    · obtain ⟨htype, hparams⟩ := (hm addr len).mp hp
      rw [Replying, htype] at h
      exact h addr len hparams
    · obtain ⟨htype, hparams⟩ := (hM addr len bytes).mp hp
      rw [Replying, htype] at h
      exact h addr len bytes hparams
    · obtain ⟨htype, hparams⟩ := parsePacket_continue.mp hp
      rw [Replying, htype] at h
      exact h hparams

/-- A turn of the loop after `recvPacket`. -/
def served (env : StubEnv) (s : Stub γ) : EStateM.Result StubEnd (Stub γ) Unit :=
  (dispatch env (parsePacket (packet s))).run s

/-- The stub at each request of `n` turns, as `recvPacket` left it. -/
def requests (env : StubEnv) : Nat → Stub γ → List (Stub γ)
  | 0, _ => []
  | n + 1, s =>
      match (recvPacket env).run s with
      | .ok feedback s =>
          if feedback ≠ .ok then []
          else s :: match served env s with
            | .ok _ s => requests env n s
            | .error .. => []
      | .error .. => []

/-- Each request with a payload is replied to once, where a continue replies when it stops, and the
`assert(0)` is not reached. -/
structure AnswersEach (env : StubEnv) (n : Nat) (s : Stub γ) : Prop where
  once : ∀ r ∈ requests env n s, packet r ≠ [] → Run.result (served env r) ≠ .error .running →
    OneReply r (Run.final (served env r))
  reachable : Run.result ((debug env n).run s) ≠ .error .unreachable

/-- Every packet is replied to where it can be answered. -/
theorem served_answers (env : StubEnv) (s : Stub γ) :
    Sat s (dispatch env (parsePacket (packet s)))
      (fun _ => Replied (CanAnswer env s.debuggedCore (packet s)) s)
      (Ended (CanAnswer env s.debuggedCore (packet s)) s) :=
  Answers.congr canAnswer_iff (dispatch_answers env _ s)

/-- A request is replied to if it can be, and only then. -/
theorem served_once_iff (env : StubEnv) (s : Stub γ) :
    (Run.result (served env s) ≠ .error .running → OneReply s (Run.final (served env s))) ↔
      CanAnswer env s.debuggedCore (packet s) := by
  cases hr : served env s with
  | ok a s' =>
      have hreplied := (served_answers env s).ok hr
      refine ⟨fun h => hreplied.oneReply_iff.mp (h fun he => ?_), fun hP _ => hreplied.answered hP⟩
      cases he
  | error e s' =>
      have hended := (served_answers env s).error hr
      by_cases he : e = .running
      · exact iff_of_true (fun h => absurd (congrArg Except.error he) h) (hended.running he)
      · have hreplied := hended.replied he
        refine ⟨fun h => hreplied.oneReply_iff.mp (h fun h => he ?_), fun hP _ =>
          hreplied.answered hP⟩
        exact Except.error.inj h

/-- The `assert(0)` is only reached by a request that cannot be replied to. -/
theorem served_reachable (h : CanAnswer env s.debuggedCore (packet s)) :
    Run.result (served env s) ≠ .error .unreachable := by
  cases hr : served env s with
  | ok a s' =>
      intro he
      cases he
  | error e s' =>
      exact fun he => ((served_answers env s).error hr).unreachable (Except.error.inj he) h

/-- The `assert(0)` is the one of the switch. -/
theorem debug_reachable (n : Nat) (s : Stub γ)
    (h : ∀ r ∈ requests env n s, Run.result (served env r) ≠ .error .unreachable) :
    Run.result ((debug env n).run s) ≠ .error .unreachable := by
  have hsat : Sat s (debug env n) (fun _ _ => True) (fun e _ => e ≠ .unreachable) := by
    induction n generalizing s with
    | zero => exact .pure trivial
    | succ n ih =>
        rw [requests] at h
        refine .bind (.bind (.intro (fun feedback s₁ hr => ?_) fun e s₁ hr => ?_))
        · rw [hr] at h
          have herr : StubEnd.receiveError ≠ .unreachable := by decide
          refine .ite (fun _ => .throw herr) fun hfb => .bind (.get ?_)
          dsimp only at h
          rw [if_neg hfb] at h
          obtain ⟨hserved, hrest⟩ := List.forall_mem_cons.mp h
          refine .intro (fun _ s₂ hd => ?_) fun e s₂ hd => ?_
          · rw [served, hd] at hrest
            exact ih s₂ hrest
          · rw [served, hd] at hserved
            exact fun he => hserved (congrArg Except.error he)
        · rcases (recvPacket_sat env s).error hr with rfl | ⟨he, -⟩
          · decide
          · rintro rfl
            cases he
  cases hr : (debug env n).run s with
  | ok a s' =>
      intro he
      cases he
  | error e s' => exact fun he => hsat.error hr (Except.error.inj he)

theorem canAnswer_nil (env : StubEnv) (c : ProcessorCore γ) : CanAnswer env c [] := by
  have htype : (parsePacket []).packetType = .cmdUnknown := by decide
  rw [canAnswer_iff, Replying, htype]
  rfl

/-- The stub answers each request of a run if it can answer each packet it is sent, and only then. -/
theorem answers_each_iff (env : StubEnv) (n : Nat) (s : Stub γ) :
    AnswersEach env n s ↔ ∀ r ∈ requests env n s, CanAnswer env r.debuggedCore (packet r) := by
  constructor
  · intro h r hr
    by_cases hnil : packet r = []
    · rw [hnil]
      exact canAnswer_nil env _
    · exact (served_once_iff env r).mp (h.once r hr hnil)
  · intro h
    refine ⟨fun r hr _ => (served_once_iff env r).mpr (h r hr), ?_⟩
    exact debug_reachable n s fun r hr => served_reachable (h r hr)

/-- The core of this repository refuses a `G` unless it has 33 registers. -/
theorem refuses_setRegisters {β : Type} [MMIOBus β] (digits : List Byte)
    (c : ProcessorCore (Machine β)) :
    Refuses (setRegisters digits) c ↔ digits.length / 16 ≠ 33 := by
  have hlen : (regsOfStream (digits.length / 16) 8 (parseByteStreamStr digits)).length
      = digits.length / 16 := by
    simp [regsOfStream]
  obtain ⟨m', hm'⟩ := Machine.run_writeAllRegister
    (regsOfStream (digits.length / 16) 8 (parseByteStreamStr digits)) c.core
  rw [hlen] at hm'
  have hrun : (setRegisters digits).run c
      = .ok (if digits.length / 16 ≠ 33 then .invalidParam else .ok) { c with core := m' } := by
    show (ProcessorCore.onCore (Machine.writeAllRegister _)).run c = _
    rw [ProcessorCore.run_onCore, hm']
  constructor
  · rintro ⟨fb, c', hr, hfb⟩ heq
    rw [hrun, if_neg (not_not.mpr heq)] at hr
    cases hr
    exact hfb rfl
  · intro hne
    refine ⟨_, _, hrun, ?_⟩
    rw [if_pos hne]
    exact nofun

/-- `$p1#a1` reaches the `assert(0)`, and there is no reply to `$M0,1:ab#d7`. -/
theorem unanswered : ¬AnswersEach validating 1 (atReset [⟨ch '$', str ['p', '1', '#', 'a', '1']⟩]) ∧
    ¬AnswersEach validating 1
      (atReset [⟨ch '$', str ['M', '0', ',', '1', ':', 'a', 'b', '#', 'd', '7']⟩]) := by
  refine ⟨fun h => h.reachable (by decide +kernel), fun h => ?_⟩
  obtain ⟨r, hr, hne, hok, hsilent⟩ : ∃ r ∈ requests validating 1
      (atReset [⟨ch '$', str ['M', '0', ',', '1', ':', 'a', 'b', '#', 'd', '7']⟩]),
      packet r ≠ [] ∧ Run.result (served validating r) = .ok () ∧
        replies (Run.final (served validating r)) = replies r := by decide +kernel
  obtain ⟨data, hone⟩ := h.once r hr hne (by rw [hok]; exact nofun)
  rw [hsilent] at hone
  simpa using congrArg List.length hone

end GDBStub

end MEmu
