import MEmu.ReadAhead
import MEmu.Lib.Trace
import Mathlib.Data.List.Chain

/-!
# Acknowledgements

`recvPacket` acknowledges the packet that it returns with, and the switch of `Debug_GDBStub`
acknowledges it once more.  The first of its two loops is left for good with the first outcome
that is no check-sum error, so a check-sum error behind a protocol error leaves the second loop as
an accepted packet does.

A session is the log of the stub, put together from the turns of its loop.
-/

namespace MEmu

open Run (Sat Keeps AbortsIn)
open Trace (Answered answered_nil answered_cons answered_append answered_of_unmarked)

/-! ## The discipline -/

/-- A call of `recvAndCheck` that returned. -/
def StubEvent.isChecked : StubEvent → Bool
  | checked .. => true
  | _ => false

/-- What the stub does for a packet with the outcome of its last check. -/
structure Acknowledged (outcome : FuncReturnFeedback) (after : List StubEvent) : Prop where
  acks : after.count .ack = if outcome = .ok then 1 else 0
  naks : after.count .nak = if outcome = .ok then 0 else 1
  /-- `recvPacket` returns with an accepted packet only. -/
  returns : outcome ≠ .ok → ∀ fb, .received fb ∉ after

/-- What the stub does after an event, up to the next check. -/
def StubEvent.Acknowledges : StubEvent → List StubEvent → Prop
  | checked _ outcome, after => Acknowledged outcome after
  | _, _ => True

/-- Each packet that was checked is acknowledged as its outcome asks for. -/
structure AckDiscipline (log : List StubEvent) : Prop where
  each : Answered StubEvent.isChecked StubEvent.Acknowledges log
  /-- Before the first check `recvPacket` does not return. -/
  first : ∀ fb, .received fb ∉ log.takeWhile fun e => !e.isChecked

/-- The outcome of a check. -/
def StubEvent.outcome? : StubEvent → Option FuncReturnFeedback
  | checked _ outcome => some outcome
  | _ => none

/-- The sequence of outcomes. -/
def outcomes (log : List StubEvent) : List FuncReturnFeedback := log.filterMap StubEvent.outcome?

/-- A check-sum error does not follow a protocol error. -/
def NotAfterProtocol (o o' : FuncReturnFeedback) : Prop := ¬(o = .protocolErr ∧ o' = .chksumErr)

/-- The outcomes for which the discipline is kept. -/
structure CleanOutcomes (log : List StubEvent) : Prop where
  order : (outcomes log).IsChain NotAfterProtocol
  /-- The one packet that the switch does not acknowledge again is a `p`, for which it has no case. -/
  accepted : ∀ frame, .checked frame .ok ∈ log → IsRegRead (GDBStub.payloadOf frame)

/-- The ends of a call of `recvAndCheck` that does not return. -/
def StubEnd.whileReading : StubEnd → Bool
  | .blocked | .acceptError | .packetTooLong => true
  | _ => false

namespace GDBStub

variable {γ : Type} {env : StubEnv} {s s' : Stub γ}

/-! ## What reception records -/

/-- Nothing is recorded. -/
def Silent {α : Type} (x : StubM γ α) : Prop :=
  ∀ s, Sat s x (fun _ s' => s'.log = s.log) fun e s' => s'.log = s.log ∧ e.whileReading = true

section Silent

variable {α δ : Type}

theorem Silent.pure (a : α) : Silent (pure a : StubM γ α) := fun _ => rfl

theorem Silent.get : Silent (get : StubM γ (Stub γ)) := fun _ => rfl

theorem Silent.throw {e : StubEnd} (he : e.whileReading = true) : Silent (throw e : StubM γ α) :=
  fun _ => ⟨rfl, he⟩

theorem Silent.modify {f : Stub γ → Stub γ} (hf : ∀ s, (f s).log = s.log) :
    Silent (modify f : StubM γ PUnit) := hf

theorem Silent.bind {x : StubM γ δ} {f : δ → StubM γ α} (hx : Silent x) (hf : ∀ a, Silent (f a)) :
    Silent (x >>= f) := by
  intro s
  refine .bind ((hx s).mono (fun a s' h => ?_) fun _ _ h => h)
  exact (hf a s').mono (fun _ _ h' => h'.trans h) fun _ _ h' => ⟨h'.1.trans h, h'.2⟩

theorem Silent.ite {c : Prop} [Decidable c] {x y : StubM γ α} (hx : Silent x) (hy : Silent y) :
    Silent (if c then x else y) :=
  fun s => .ite (fun _ => hx s) fun _ => hy s

/-- If it does not return, nothing is recorded. -/
def FailsSilently (x : StubM γ α) : Prop :=
  ∀ s, Sat s x (fun _ _ => True) fun e s' => s'.log = s.log ∧ e.whileReading = true

theorem Silent.before {x : StubM γ δ} {f : δ → StubM γ α} (hx : Silent x)
    (hf : ∀ a, FailsSilently (f a)) : FailsSilently (x >>= f) := by
  intro s
  refine .bind ((hx s).mono (fun a s' h => ?_) fun _ _ h => h)
  exact (hf a s').mono (fun _ _ h' => h') fun _ _ h' => ⟨h'.1.trans h, h'.2⟩

end Silent

/-- A character read sends nothing. -/
theorem getc_silent : Silent (getc : StubM γ (Option Byte)) := by
  intro s
  refine .bind (.get ?_)
  split
  · exact .bind (.set (.pure rfl))
  · exact .bind (.set (.pure rfl))
  · exact .ite (fun _ => .pure rfl) fun _ => .throw ⟨rfl, rfl⟩

/-- The search for a packet sends nothing. -/
theorem readPacket_silent (n : Nat) (packet_begin_index : Int) :
    Silent (readPacket n packet_begin_index : StubM γ (Option (Int × Nat))) := by
  induction n generalizing packet_begin_index with
  | zero => exact .pure _
  | succ n ih =>
      refine .bind getc_silent fun c => .bind .get fun s => .bind (.modify fun _ => rfl) fun _ => ?_
      exact .ite (.pure _) (ih _)

theorem acceptClient_silent : Silent (acceptClient (γ := γ) env) := by
  refine .bind .get fun _ => .ite (.bind (.modify fun _ => rfl) fun _ => ?_) ?_
  all_goals exact .bind .get fun _ => .ite (.throw rfl) (.pure _)

theorem openFile_silent : Silent (openFile : StubM γ Unit) := .modify fun _ => rfl

/-- The check of a packet sends nothing. -/
theorem checkPacket_silent (packet_begin_index : Int) (packet_size : Nat) (c₀ c₁ : Byte) :
    Silent (checkPacket (γ := γ) env packet_begin_index packet_size c₀ c₁) :=
  .ite (.pure _) (.bind .get fun _ => .ite (.pure _) (.bind (.modify fun _ => rfl) fun _ => .pure _))

/-- A call of `recvAndCheck` that does not return records nothing. -/
theorem recvAndCheck_fails (env : StubEnv) : FailsSilently (recvAndCheck (γ := γ) env) := by
  refine acceptClient_silent.before fun _ => openFile_silent.before fun _ => ?_
  refine (readPacket_silent _ _).before fun r => ?_
  cases r with
  | none => exact fun _ => .throw ⟨rfl, rfl⟩
  | some q =>
      refine getc_silent.before fun _ => getc_silent.before fun _ => ?_
      refine (checkPacket_silent _ _ _ _).before fun fb => Silent.get.before fun _ => ?_
      exact fun _ => .bind (.modify (.pure trivial))

/-- What `recvAndCheck` records, and what it leaves behind. -/
theorem recvAndCheck_log (env : StubEnv) (s : Stub γ) : Sat s (recvAndCheck env)
    (fun fb s' => ∃ frame, s'.log = s.log ++ [.checked frame fb] ∧ IsOutcome fb ∧
      (fb = .ok → packet s' = payloadOf frame))
    (fun e s' => s'.log = s.log ∧ e.whileReading = true) := by
  refine ((recvAndCheck_sat env s).and (recvAndCheck_fails env s)).mono (fun fb s' h => ?_)
    fun _ _ h => h.2
  obtain ⟨⟨hlog, -, hout, hpacket⟩, -⟩ := h
  exact ⟨_, hlog, hout, hpacket⟩

/-! ## The loops of `recvPacket` -/

/-- Packets that were rejected with the same outcome. -/
def rejected (err : FuncReturnFeedback) (frames : List (List Byte)) : List StubEvent :=
  frames.flatMap fun frame => [.checked frame err, .nak]

/-- A loop rejects packets for as long as they have its outcome. -/
theorem retry_sat {err fb : FuncReturnFeedback} {left : Nat} {base : List StubEvent}
    {frame : List Byte} (hlog : s.log = base ++ [.checked frame fb]) (hout : IsOutcome fb)
    (hpacket : fb = .ok → packet s = payloadOf frame) :
    Sat s (retry env err left fb)
      (fun r s' => ∃ frames last, s'.log = base ++ rejected err frames ++ [.checked last r.2] ∧
        r.2 ≠ err ∧ IsOutcome r.2 ∧ (r.2 = .ok → packet s' = payloadOf last) ∧
        (frames = [] → r.2 = fb))
      (fun e s' => e = .tooManyRetries ∨
        e.whileReading = true ∧ ∃ frames, s'.log = base ++ rejected err frames) := by
  induction left generalizing s base frame fb with
  | zero =>
      rw [retry]
      refine .ite (fun _ => .throw (.inl rfl)) fun hne => .pure ?_
      exact ⟨[], frame, by rw [hlog, rejected, List.flatMap_nil, List.append_nil], hne, hout,
        hpacket, fun _ => rfl⟩
  | succ left ih =>
      rw [retry]
      refine .ite (fun herr => ?_) fun hne => .pure ?_
      · subst herr
        refine .bind (.modify (.bind ((recvAndCheck_log env _).mono (fun fb' s' h => ?_)
          fun e s' h => .inr ⟨h.2, [frame], ?_⟩)))
        · obtain ⟨frame', hlog', hout', hpacket'⟩ := h
          have hbase : s'.log = (base ++ rejected fb [frame]) ++ [.checked frame' fb'] := by
            rw [hlog', hlog, List.append_assoc base]
            rfl
          refine (ih hbase hout' hpacket').mono (fun r s'' h' => ?_) fun e s'' h' => ?_
          · obtain ⟨frames, last, hlast, hne, hout, hpacket, -⟩ := h'
            refine ⟨frame :: frames, last, ?_, hne, hout, hpacket, fun h => ?_⟩
            · rw [hlast, List.append_assoc base]
              rfl
            · cases h
          · refine h'.imp_right fun h => ?_
            obtain ⟨he, frames, hframes⟩ := h
            refine ⟨he, frame :: frames, ?_⟩
            rw [hframes, List.append_assoc]
            rfl
        · rw [h.1, hlog, List.append_assoc]
          rfl
      · exact ⟨[], frame, by rw [hlog, rejected, List.flatMap_nil, List.append_nil], hne, hout,
          hpacket, fun _ => rfl⟩

/-- Packets that `recvPacket` rejected. -/
def rejections (chksum protocol : List (List Byte)) : List StubEvent :=
  rejected .chksumErr chksum ++ rejected .protocolErr protocol

/-- `recvPacket` returns with an accepted packet, or with a check-sum error behind a protocol error. -/
theorem recvPacket_sat (env : StubEnv) (s : Stub γ) : Sat s (recvPacket env)
    (fun fb s' => ∃ a b frame,
      s'.log = s.log ++ rejections a b ++ [.checked frame fb, .ack, .received fb] ∧
      (fb = .ok ∧ packet s' = payloadOf frame ∨ fb = .chksumErr ∧ b ≠ []))
    (fun e s' => e = .tooManyRetries ∨
      e.whileReading = true ∧ ∃ a b, s'.log = s.log ++ rejections a b) := by
  refine .bind ((recvAndCheck_log env s).mono (fun fb₁ s₁ h₁ => ?_)
    fun e s₁ h₁ => .inr ⟨h₁.2, [], [], ?_⟩)
  · obtain ⟨frame₁, hlog₁, hout₁, hpacket₁⟩ := h₁
    refine .bind ((retry_sat hlog₁ hout₁ hpacket₁).mono (fun r₂ s₂ h₂ => ?_) fun e s₂ h₂ => ?_)
    · obtain ⟨a, frame₂, hlog₂, hne₂, hout₂, hpacket₂, -⟩ := h₂
      refine .bind ((retry_sat hlog₂ hout₂ hpacket₂).mono (fun r₃ s₃ h₃ => ?_) fun e s₃ h₃ => ?_)
      · obtain ⟨b, frame₃, hlog₃, hne₃, hout₃, hpacket₃, hnil⟩ := h₃
        refine .bind (.modify (.bind (.modify (.pure ⟨a, b, frame₃, ?_, ?_⟩))))
        · show s₃.log ++ [.ack] ++ [.received r₃.2] = _
          rw [hlog₃, rejections]
          simp only [List.append_assoc, List.cons_append, List.nil_append]
        · rcases hout₃ with hok | hprot | hchk
          · exact .inl ⟨hok, hpacket₃ hok⟩
          · exact absurd hprot hne₃
          · refine .inr ⟨hchk, fun hb => hne₂ ?_⟩
            rw [← hnil hb, hchk]
      · refine h₃.imp id fun ⟨he, b, hb⟩ => ⟨he, a, b, ?_⟩
        rw [hb, rejections, List.append_assoc]
    · refine h₂.imp id fun ⟨he, a, ha⟩ => ⟨he, a, [], ?_⟩
      rw [ha, rejections, rejected, rejected, List.flatMap_nil, List.append_nil]
  · rw [h₁.1]
    exact (List.append_nil _).symm

/-! ## Sessions -/

/-- A reply, or what belongs to it. -/
def OfReply (e : StubEvent) : Prop := e.isChecked = false ∧ e ≠ .ack ∧ e ≠ .nak

/-- What the switch does with an accepted packet. -/
structure Dispatched (frame : List Byte) (events : List StubEvent) : Prop where
  regRead : IsRegRead (payloadOf frame) → events = []
  others : ¬IsRegRead (payloadOf frame) →
    ∃ replies, events = .ack :: replies ∧ ∀ e ∈ replies, OfReply e

/-- The log of turns of the loop of `Debug_GDBStub`. -/
inductive Session : List StubEvent → Prop where
  | idle : Session []
  /-- The stub waits for a packet, or ends while it does. -/
  | waiting (a b : List (List Byte)) : Session (rejections a b)
  /-- `recvPacket` returns with a check-sum error. -/
  | refused (a b : List (List Byte)) (frame : List Byte) (hb : b ≠ []) :
      Session (rejections a b ++ [.checked frame .chksumErr, .ack, .received .chksumErr])
  | served (a b : List (List Byte)) (frame : List Byte) {events rest : List StubEvent}
      (hd : Dispatched frame events) (h : Session rest) :
      Session (rejections a b ++ (.checked frame .ok :: .ack :: .received .ok :: events) ++ rest)

/-- A reply is sent as a frame that is no acknowledgement. -/
theorem packingAndSend_ofReply (data : List Byte) :
    Keeps (Grows OfReply) (packingAndSend data : StubM γ Unit) := by
  refine packingAndSend_keeps (readByte_grows fun _ => ?_) (fun _ => emit_grows ?_)
    (fun _ => emit_grows ?_) data
  all_goals exact ⟨rfl, nofun, nofun⟩

section Debug

variable [ProcessorCoreI γ]

/-- The events of the switch, for the packet that was received last. -/
theorem dispatch_sat {frame : List Byte} (h : packet s = payloadOf frame) :
    Sat s (dispatch env (parsePacket (packet s)))
      (fun _ s' => ∃ events, s'.log = s.log ++ events ∧ Dispatched frame events)
      (fun _ s' => ∃ events, s'.log = s.log ++ events ∧ Dispatched frame events) := by
  rw [dispatch_eq]
  refine .ite (fun hcase => ?_) fun hcase => .throw ?_
  · have hno : ¬IsRegRead (payloadOf frame) := by
      rw [← h, ← hasCase_parsePacket, hcase]
      exact Bool.noConfusion
    have hdone : ∀ s', Grows OfReply { s with log := s.log ++ [.ack] } s' →
        ∃ events, s'.log = s.log ++ events ∧ Dispatched frame events := by
      rintro s' ⟨replies, hlog, hall⟩
      refine ⟨.ack :: replies, ?_, fun hp => absurd hp hno, fun _ => ⟨replies, rfl, hall⟩⟩
      rw [hlog, List.append_assoc]
      rfl
    refine .bind (.modify ?_)
    refine (command_keeps env _ packingAndSend_ofReply (fun s _ => .refl s) _).mono ?_ ?_
    · exact fun _ s' h' => hdone s' h'
    · exact fun _ s' h' => hdone s' h'
  · refine ⟨[], (List.append_nil _).symm, fun _ => rfl, fun hno => absurd ?_ hno⟩
    rw [← h, ← hasCase_parsePacket]
    exact Bool.eq_false_iff.mpr hcase

/-- What the loop records is a session. -/
theorem debug_session (env : StubEnv) (n : Nat) (s : Stub γ) : Sat s (debug env n)
    (fun _ s' => ∃ l, Session l ∧ s'.log = s.log ++ l)
    (fun e s' => e ≠ .tooManyRetries → ∃ l, Session l ∧ s'.log = s.log ++ l) := by
  induction n generalizing s with
  | zero => exact .pure ⟨[], .idle, (List.append_nil _).symm⟩
  | succ n ih =>
      refine .bind (.bind ((recvPacket_sat env s).mono (fun fb s₁ h₁ => ?_) fun e s₁ h₁ he => ?_))
      · obtain ⟨a, b, frame, hlog, hend⟩ := h₁
        refine .ite (fun hfb => .throw fun _ => ?_) fun hfb => .bind (.get ?_)
        · obtain ⟨rfl, hb⟩ := hend.resolve_left fun h => hfb h.1
          exact ⟨_, .refused a b frame hb, by rw [hlog, List.append_assoc]⟩
        · obtain ⟨rfl, hpacket⟩ := hend.resolve_right fun h => hfb (by rw [h.1]; decide)
          refine (dispatch_sat hpacket).mono (fun _ s₂ h₂ => ?_) fun e s₂ h₂ _ => ?_
          · obtain ⟨events, hlog₂, hd⟩ := h₂
            have hdone : ∀ s' : Stub γ, (∃ l, Session l ∧ s'.log = s₂.log ++ l) →
                ∃ l, Session l ∧ s'.log = s.log ++ l := by
              rintro s' ⟨l, hl, hlog'⟩
              refine ⟨_, .served a b frame hd hl, ?_⟩
              rw [hlog', hlog₂, hlog]
              simp only [List.append_assoc, List.cons_append, List.nil_append]
            exact (ih s₂).mono (fun _ s' h => hdone s' h) fun e s' h he => hdone s' (h he)
          · obtain ⟨events, hlog₂, hd⟩ := h₂
            refine ⟨_, .served a b frame hd .idle, ?_⟩
            rw [hlog₂, hlog]
            simp only [List.append_assoc, List.cons_append, List.nil_append, List.append_nil]
      · obtain ⟨-, a, b, hlog⟩ := h₁.resolve_left he
        exact ⟨_, .waiting a b, hlog⟩

end Debug

/-! ## Which sessions keep the discipline -/

/-- Nothing, or a check first. -/
def ChecksFirst (log : List StubEvent) : Prop := ∀ e ∈ log.head?, e.isChecked = true

/-- With rejections before it a trace still begins with a check. -/
theorem checksFirst_rejections (a b : List (List Byte)) {l : List StubEvent} (hl : ChecksFirst l) :
    ChecksFirst (rejections a b ++ l) := by
  intro e he
  cases a with
  | cons frame a =>
      obtain rfl := Option.some.inj he
      rfl
  | nil =>
      cases b with
      | cons frame b =>
          obtain rfl := Option.some.inj he
          rfl
      | nil => exact hl e he

/-- A trace that begins with a check. -/
theorem checksFirst_checked (frame : List Byte) (fb : FuncReturnFeedback) (l : List StubEvent) :
    ChecksFirst (.checked frame fb :: l) := by
  intro e he
  obtain rfl := Option.some.inj he
  rfl

/-- A session begins with a check. -/
theorem Session.checksFirst {l : List StubEvent} (h : Session l) : ChecksFirst l := by
  cases h with
  | idle => exact nofun
  | waiting a b =>
      have hwait := checksFirst_rejections a b (l := []) nofun
      rwa [List.append_nil] at hwait
  | refused a b frame hb => exact checksFirst_rejections a b (checksFirst_checked _ _ _)
  | served a b frame hd h =>
      rw [List.append_assoc]
      exact checksFirst_rejections a b (checksFirst_checked _ _ _)

/-- The discipline, as one that asks for an answer after every check. -/
theorem ackDiscipline_iff {l : List StubEvent} (hl : ChecksFirst l) :
    AckDiscipline l ↔ Answered StubEvent.isChecked StubEvent.Acknowledges l := by
  refine ⟨AckDiscipline.each, fun h => ⟨h, fun fb hfb => ?_⟩⟩
  cases l with
  | nil => cases hfb
  | cons e l =>
      rw [List.takeWhile_cons_of_neg (by simp [hl e rfl])] at hfb
      cases hfb

/-- Each rejection is answered by the one `-` after it. -/
theorem answered_rejected {err : FuncReturnFeedback} (herr : err ≠ .ok) (frames : List (List Byte)) :
    Answered StubEvent.isChecked StubEvent.Acknowledges (rejected err frames) := by
  induction frames with
  | nil => exact answered_nil
  | cons frame frames ih =>
      have hone : Answered StubEvent.isChecked StubEvent.Acknowledges [.checked frame err, .nak] := by
        refine answered_cons.mpr ⟨fun _ => ?_, answered_of_unmarked (by simp [StubEvent.isChecked])⟩
        refine ⟨?_, ?_, fun _ fb => ?_⟩
        · rw [if_neg herr]
          rfl
        · rw [if_neg herr]
          rfl
        · simp [StubEvent.isChecked]
      have hhead : ∀ e ∈ (rejected err frames).head?, e.isChecked = true := by
        cases frames with
        | nil => exact nofun
        | cons frame frames =>
            intro e he
            obtain rfl := Option.some.inj he
            rfl
      exact (answered_append hhead).mpr ⟨hone, ih⟩

/-- Rejected packets are answered as they should be. -/
theorem answered_rejections (a b : List (List Byte)) {l : List StubEvent} (hl : ChecksFirst l) :
    Answered StubEvent.isChecked StubEvent.Acknowledges (rejections a b ++ l) ↔
      Answered StubEvent.isChecked StubEvent.Acknowledges l := by
  have hb : ChecksFirst (rejected .protocolErr b ++ l) := checksFirst_rejections [] b hl
  rw [rejections, List.append_assoc, answered_append hb, answered_append hl]
  exact ⟨fun h => h.2.2, fun h => ⟨answered_rejected (by decide) a, answered_rejected (by decide) b, h⟩⟩

/-- A packet that the switch got is acknowledged once only if it has no case for it. -/
theorem answered_served {frame : List Byte} {events rest : List StubEvent}
    (hd : Dispatched frame events) (hrest : ChecksFirst rest) :
    Answered StubEvent.isChecked StubEvent.Acknowledges
        ((.checked frame .ok :: .ack :: .received .ok :: events) ++ rest) ↔
      IsRegRead (payloadOf frame) ∧ Answered StubEvent.isChecked StubEvent.Acknowledges rest := by
  rw [answered_append hrest, answered_cons]
  refine and_congr_left fun _ => ?_
  by_cases hp : IsRegRead (payloadOf frame)
  · refine iff_of_true ⟨fun _ => ?_, ?_⟩ hp
    · rw [hd.regRead hp]
      exact ⟨rfl, rfl, fun h => absurd rfl h⟩
    · rw [hd.regRead hp]
      exact answered_of_unmarked (by simp [StubEvent.isChecked])
  · refine iff_of_false (fun h => ?_) hp
    obtain ⟨replies, rfl, -⟩ := hd.others hp
    have hacks := (h.1 rfl).acks
    simp [StubEvent.isChecked] at hacks

/-- The outcomes of two parts of a trace, one after the other. -/
theorem outcomes_append (l l' : List StubEvent) : outcomes (l ++ l') = outcomes l ++ outcomes l' :=
  List.filterMap_append

/-- Rejections have one outcome each. -/
theorem outcomes_rejected (err : FuncReturnFeedback) (frames : List (List Byte)) :
    outcomes (rejected err frames) = List.replicate frames.length err := by
  induction frames with
  | nil => rfl
  | cons frame frames ih =>
      rw [List.length_cons, List.replicate_succ, ← ih]
      rfl

/-- What is done after the check of a packet checks nothing. -/
theorem Dispatched.unchecked {frame : List Byte} {events : List StubEvent}
    (hd : Dispatched frame events) : ∀ e ∈ events, e.isChecked = false := by
  by_cases hp : IsRegRead (payloadOf frame)
  · rw [hd.regRead hp]
    exact nofun
  · obtain ⟨replies, rfl, hall⟩ := hd.others hp
    exact List.forall_mem_cons.mpr ⟨rfl, fun e he => (hall e he).1⟩

/-- So it has no outcomes of its own. -/
theorem Dispatched.outcomes_eq {frame : List Byte} {events : List StubEvent}
    (hd : Dispatched frame events) : outcomes events = [] := by
  rw [outcomes, List.filterMap_eq_nil_iff]
  intro e he
  have hno := hd.unchecked e he
  cases e with
  | checked frame outcome => cases hno
  | _ => rfl

/-- Neither do they break the order of outcomes, if the next one is no check-sum error. -/
theorem isChain_rejections (a b : List (List Byte)) {l : List StubEvent}
    (hl : ∀ o ∈ (outcomes l).head?, o ≠ .chksumErr) :
    (outcomes (rejections a b ++ l)).IsChain NotAfterProtocol ↔
      (outcomes l).IsChain NotAfterProtocol := by
  have hsame (n : Nat) (o : FuncReturnFeedback) (ho : NotAfterProtocol o o) :
      (List.replicate n o).IsChain NotAfterProtocol := List.isChain_replicate_of_rel n ho
  have hlast (n : Nat) (o o' : FuncReturnFeedback) (h : o' ∈ (List.replicate n o).getLast?) :
      o' = o := List.eq_of_mem_replicate (List.mem_of_getLast? h)
  rw [rejections, outcomes_append, outcomes_append, outcomes_rejected, outcomes_rejected,
    List.append_assoc, List.isChain_append, List.isChain_append]
  refine ⟨fun h => h.2.1.2.1, fun h => ⟨hsame _ _ (by simp [NotAfterProtocol]),
    ⟨hsame _ _ (by simp [NotAfterProtocol]), h, ?_⟩, ?_⟩⟩
  · intro o ho o' ho' hbad
    exact hl o' ho' hbad.2
  · intro o ho o' _ hbad
    rw [hlast _ _ _ ho] at hbad
    cases hbad.1

/-- No rejection is of a packet that passed. -/
theorem mem_rejections {a b : List (List Byte)} {frame : List Byte} :
    .checked frame .ok ∉ rejections a b := by
  simp [rejections, rejected]

/-- A check-sum error that `recvPacket` returns with stands behind a protocol error. -/
theorem not_clean_refused {a b : List (List Byte)} (frame : List Byte) (hb : b ≠ []) :
    ¬CleanOutcomes
      (rejections a b ++ [.checked frame .chksumErr, .ack, .received .chksumErr]) := by
  intro h
  have hchain := h.order
  rw [rejections, List.append_assoc, outcomes_append, outcomes_append, outcomes_rejected,
    outcomes_rejected] at hchain
  have hprot := (List.isChain_append.mp hchain.right_of_append).2.2
  refine hprot .protocolErr ?_ .chksumErr rfl ⟨rfl, rfl⟩
  rw [List.getLast?_replicate, if_neg (by simpa using hb)]
  rfl

/-- An accepted packet may stand behind every outcome, and before every outcome. -/
theorem clean_served {a b : List (List Byte)} {frame : List Byte} {events rest : List StubEvent}
    (hd : Dispatched frame events) : CleanOutcomes
        (rejections a b ++ ((.checked frame .ok :: .ack :: .received .ok :: events) ++ rest)) ↔
      IsRegRead (payloadOf frame) ∧ CleanOutcomes rest := by
  have hrest : outcomes ((.checked frame .ok :: .ack :: .received .ok :: events) ++ rest)
      = .ok :: outcomes rest := by
    show .ok :: outcomes (events ++ rest) = _
    rw [outcomes_append, hd.outcomes_eq, List.nil_append]
  have hchain := isChain_rejections a b
    (l := (.checked frame .ok :: .ack :: .received .ok :: events) ++ rest)
    (by rw [hrest]; rintro o ho rfl; cases ho)
  rw [hrest, List.isChain_cons] at hchain
  constructor
  · intro hclean
    refine ⟨hclean.accepted frame (by simp), (hchain.mp hclean.order).2, fun frame' hmem => ?_⟩
    exact hclean.accepted frame' (List.mem_append_right _ (List.mem_append_right _ hmem))
  · rintro ⟨hp, hclean⟩
    refine ⟨hchain.mpr ⟨fun o _ hbad => absurd hbad.1 (by decide), hclean.order⟩,
      fun frame' hmem => ?_⟩
    rcases List.mem_append.mp hmem with hmem | hmem
    · exact absurd hmem mem_rejections
    · rcases List.mem_append.mp hmem with hmem | hmem
      · simp only [List.mem_cons, StubEvent.checked.injEq, and_true, reduceCtorEq, false_or]
          at hmem
        rcases hmem with rfl | hmem
        · exact hp
        · exact absurd (hd.unchecked _ hmem) nofun
      · exact hclean.accepted frame' hmem

/-- A session keeps the discipline if its outcomes are clean, and only then. -/
theorem Session.ackDiscipline_iff {l : List StubEvent} (h : Session l) :
    AckDiscipline l ↔ CleanOutcomes l := by
  rw [GDBStub.ackDiscipline_iff h.checksFirst]
  induction h with
  | idle => exact iff_of_true answered_nil ⟨.nil, nofun⟩
  | waiting a b =>
      have hans := (answered_rejections a b (l := []) nofun).mpr answered_nil
      have hchain := (isChain_rejections a b (l := []) nofun).mpr .nil
      rw [List.append_nil] at hans hchain
      exact iff_of_true hans ⟨hchain, fun frame hmem => absurd hmem mem_rejections⟩
  | refused a b frame hb =>
      refine iff_of_false (fun h => ?_) (not_clean_refused frame hb)
      rw [answered_rejections a b (checksFirst_checked _ _ _), answered_cons] at h
      exact absurd (h.1 rfl).acks (by decide)
  | served a b frame hd h ih =>
      rename_i events rest
      have hfirst : ChecksFirst ((.checked frame .ok :: .ack :: .received .ok :: events) ++ rest) :=
        checksFirst_checked _ _ _
      rw [List.append_assoc, answered_rejections a b hfirst, answered_served hd h.checksFirst, ih,
        clean_served hd]

section Debug

variable [ProcessorCoreI γ]

/-- Within the retry limit, a run of the stub acknowledges each packet as its outcome asks for if the
outcomes are clean, and only then. -/
theorem acknowledges_iff_clean (env : StubEnv) (n : Nat) (s : Stub γ) (hlog : s.log = [])
    (hretry : Run.result ((debug env n).run s) ≠ .error .tooManyRetries) :
    AckDiscipline (Run.final ((debug env n).run s)).log ↔
      CleanOutcomes (Run.final ((debug env n).run s)).log := by
  have hdebug := debug_session env n s
  rw [hlog] at hdebug
  cases hr : (debug env n).run s with
  | ok a s' =>
      obtain ⟨l, hl, hlog'⟩ := hdebug.ok hr
      rw [Run.final, hlog']
      exact hl.ackDiscipline_iff
  | error e s' =>
      rw [hr] at hretry
      obtain ⟨l, hl, hlog'⟩ := hdebug.error hr fun he => hretry (congrArg Except.error he)
      rw [Run.final, hlog']
      exact hl.ackDiscipline_iff

end Debug

/-- A core at its reset with one byte of memory, and a client that sends these arrivals. -/
def atReset (arrivals : List Arrival) : Stub (Machine (MEmuMMIOBus MMIOMem)) :=
  connected (.ofBytes default [0]) arrivals

/-- What the stub records in a turn. -/
def turnLog (arrivals : List Arrival) : List StubEvent :=
  (Run.final ((debug validating 1).run (atReset arrivals))).log

/-- `$p1#a1` is acknowledged once, and then there is no case for it. -/
theorem acknowledges_iff_clean_register :
    AckDiscipline (turnLog [⟨ch '$', str ['p', '1', '#', 'a', '1']⟩]) := by
  refine (acknowledges_iff_clean validating 1 _ rfl (by decide +kernel)).mpr ?_
  have hlog : turnLog [⟨ch '$', str ['p', '1', '#', 'a', '1']⟩]
      = [.checked (str ['$', 'p', '1', '#', 'a', '1']) .ok, .ack, .received .ok] := by
    decide +kernel
  rw [turnLog] at hlog
  rw [hlog]
  refine ⟨.singleton _, fun frame hmem => ⟨str ['1'], ⟨by decide, by decide⟩, ?_⟩⟩
  obtain rfl : frame = str ['$', 'p', '1', '#', 'a', '1'] := by simpa using hmem
  decide

/-- `$?#3f` is acknowledged twice.  Behind a packet with no `$`, one with a wrong check sum is
acknowledged, and `recvPacket` returns with it. -/
theorem acknowledged_twice :
    ¬AckDiscipline (turnLog [⟨ch '$', str ['?', '#', '3', 'f']⟩]) ∧
      ¬AckDiscipline (turnLog [⟨ch '#', str ['0', '0']⟩, ⟨ch '$', str ['?', '#', '0', '0']⟩]) := by
  have htwice : turnLog [⟨ch '$', str ['?', '#', '3', 'f']⟩]
      = [.checked (str ['$', '?', '#', '3', 'f']) .ok, .ack, .received .ok, .ack,
        .sent (packing (str ['S', '0', '5']))] := by decide +kernel
  have hwrong : turnLog [⟨ch '#', str ['0', '0']⟩, ⟨ch '$', str ['?', '#', '0', '0']⟩]
      = [.checked (str ['#', '0', '0']) .protocolErr, .nak,
        .checked (str ['$', '?', '#', '0', '0']) .chksumErr, .ack, .received .chksumErr] := by
    decide +kernel
  rw [htwice, hwrong]
  refine ⟨fun h => ?_, fun h => ?_⟩
  · exact absurd (h.each [] _ _ rfl rfl).acks (by decide)
  · exact absurd (h.each [_, _] _ _ rfl rfl).acks (by decide)

end GDBStub

end MEmu
