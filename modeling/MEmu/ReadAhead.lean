import MEmu.GdbStub
import MEmu.Lib.Run
import Mathlib.Data.List.DropRight

/-!
# The bytes between packets

Each `recvAndCheck` opens a `FILE`, which takes whole arrivals off the descriptor.  What it took
and did not hand out when the packet was complete is handed to nobody.  So a session reads the
bytes of the client in order exactly as long as each packet ends with an arrival.
-/

namespace MEmu

open Run (Sat Keeps)
open Pieces (contents ReadAhead EndsPiece)

/-- The bytes that an event was given. -/
def StubEvent.taken : StubEvent → List Byte
  | checked frame _ => frame
  | ackRead b => [b]
  | _ => []

namespace GDBStub

variable {γ : Type}

/-- The bytes that the stub was given so far. -/
def taken (s : Stub γ) : List Byte := s.log.flatMap StubEvent.taken

/-- The bytes that are on the descriptor, or are yet to arrive. -/
def unread (s : Stub γ) : List Byte := contents s.arrivals

/-- The packet at the start of a stream: all up to its first `#`, and two characters. -/
def frameOf (stream : List Byte) : List Byte :=
  stream.take ((stream.takeWhile (· != packetEndChar)).length + 3)

/-- What a packet carries: what is between its last `$` and the `#`. -/
def payloadOf (frame : List Byte) : List Byte :=
  (frame.takeWhile (· != packetEndChar)).rtakeWhile (· != packetBeginChar)

/-! ## The loop over the characters -/

/-- The index behind the last `$`, or -1. -/
def lastBegin (body : List Byte) : Int :=
  if packetBeginChar ∈ body then
    ((body.length - (body.rtakeWhile (· != packetBeginChar)).length : Nat) : Int)
  else -1

theorem lastBegin_concat (body : List Byte) (c : Byte) : lastBegin (body ++ [c])
    = if c = packetBeginChar then (body.length : Int) + 1 else lastBegin body := by
  by_cases hc : c = packetBeginChar
  · rw [if_pos hc, lastBegin, if_pos (by simp [hc]),
      List.rtakeWhile_concat_neg _ _ _ (by simp [hc]), List.length_append]
    rfl
  · have hmem : packetBeginChar ∈ body ++ [c] ↔ packetBeginChar ∈ body := by
      simp [Ne.symm hc]
    rw [if_neg hc, lastBegin, lastBegin, List.rtakeWhile_concat_pos _ _ _ (by simpa using hc),
      List.length_append, List.length_append, List.length_singleton, Nat.add_sub_add_right]
    simp only [hmem]

theorem payload_eq {body : List Byte} {rest : List Byte} (h : lastBegin body ≠ -1) :
    ((body ++ rest).drop (lastBegin body).toNat).take ((body.length : Int) - lastBegin body).toNat
      = body.rtakeWhile (· != packetBeginChar) := by
  have hmem : packetBeginChar ∈ body := by
    by_contra hno
    exact h (if_neg hno)
  obtain ⟨pre, hpre⟩ := List.rtakeWhile_suffix (· != packetBeginChar) body
  have hlen := congrArg List.length hpre
  rw [List.length_append] at hlen
  have hbegin : lastBegin body = (pre.length : Int) := by
    rw [lastBegin, if_pos hmem]
    omega
  rw [hbegin, Int.toNat_natCast]
  have hsize : ((body.length : Int) - pre.length).toNat
      = (body.rtakeWhile (· != packetBeginChar)).length := by omega
  have hdrop : (pre ++ (body.rtakeWhile (· != packetBeginChar) ++ rest)).drop pre.length
      = body.rtakeWhile (· != packetBeginChar) ++ rest := List.drop_left
  rw [← List.append_assoc, hpre] at hdrop
  rw [hsize, hdrop, List.take_left]

variable {env : StubEnv} {ps : List Arrival} {read : List Byte} {s s' : Stub γ}

theorem run_getc_end (hbuf : s.fileBuf = []) (harr : s.arrivals = []) :
    Sat s getc (fun c s' => c = none ∧ s' = s) (fun _ _ => True) := by
  refine .bind (.get ?_)
  simp only [hbuf, harr]
  exact .ite (fun _ => .pure ⟨rfl, rfl⟩) fun _ => .throw trivial

/-- A character is the next byte of the stream.  There is none only at its end. -/
theorem getc_sat (h : ReadAhead ps read s.fileBuf s.arrivals) :
    Sat s getc (fun c s' => s' = { s with fileBuf := s'.fileBuf, arrivals := s'.arrivals } ∧
        ReadAhead ps (read ++ c.toList) s'.fileBuf s'.arrivals ∧
        (c = none → s'.fileBuf = [] ∧ s'.arrivals = [])) (fun _ _ => True) := by
  refine .bind (.get ?_)
  split
  · rename_i b fileBuf hbuf
    rw [hbuf] at h
    exact .bind (.set (.pure ⟨rfl, h.fromBuffer, nofun⟩))
  · rename_i a arrivals hbuf harr
    rw [hbuf, harr] at h
    exact .bind (.set (.pure ⟨rfl, h.fromPiece, nofun⟩))
  · rename_i hbuf harr
    refine .ite (fun _ => .pure ⟨rfl, ?_, fun _ => ⟨hbuf, harr⟩⟩) fun _ => .throw trivial
    rw [Option.toList_none, List.append_nil]
    exact h

/-- At the end of the stream no packet finishes. -/
theorem readPacket_end (n : Nat) (packet_begin_index : Int) (hbuf : s.fileBuf = [])
    (harr : s.arrivals = []) :
    Sat s (readPacket n packet_begin_index) (fun r _ => r = none) (fun _ _ => True) := by
  induction n generalizing s packet_begin_index with
  | zero => exact .pure rfl
  | succ n ih =>
      refine (run_getc_end hbuf harr).bind_of fun c s' h => ?_
      obtain ⟨rfl, rfl⟩ := h
      refine .bind (.get (.bind (.modify (.ite (fun hend => ?_) fun _ => ih _ hbuf harr))))
      exact absurd hend (by decide)

/-- The loop finishes with the first `#`, and knows where the last `$` before it is. -/
theorem readPacket_sat (n : Nat) (packet_begin_index : Int)
    (h : ReadAhead ps s.buffer s.fileBuf s.arrivals) (hend : packetEndChar ∉ s.buffer)
    (hbegin : packet_begin_index = lastBegin s.buffer) :
    Sat s (readPacket n packet_begin_index)
      (fun r s' => ∀ q ∈ r, ∃ body, packetEndChar ∉ body ∧
        q = (lastBegin body, ((body.length : Int) - lastBegin body).toNat) ∧
        s'.buffer = body ++ [packetEndChar] ∧
        ReadAhead ps s'.buffer s'.fileBuf s'.arrivals ∧ s'.log = s.log)
      (fun _ _ => True) := by
  induction n generalizing s packet_begin_index with
  | zero => exact .pure nofun
  | succ n ih =>
      refine (getc_sat h).bind_of fun c s' hc => ?_
      obtain ⟨hs', hread, hnone⟩ := hc
      have hlog : s'.log = s.log := by rw [hs']
      have hbuffer : s'.buffer = s.buffer := by rw [hs']
      refine .bind (.get (.bind (.modify ?_)))
      cases c with
      | none =>
          obtain ⟨hbuf, harr⟩ := hnone rfl
          refine .ite (fun hno => absurd hno (by decide)) fun _ => ?_
          refine (readPacket_end n _ ?_ ?_).mono (fun r _ hr => ?_) fun _ _ _ => trivial
          · exact hbuf
          · exact harr
          · rw [hr]
            exact nofun
      | some b =>
          have hindex : (if b = packetBeginChar then (s'.buffer.length : Int) + 1
              else packet_begin_index) = lastBegin (s'.buffer ++ [b]) := by
            rw [lastBegin_concat, hbuffer, hbegin]
          have hchar : asChar (some b) = b := rfl
          have hread : ReadAhead ps (s'.buffer ++ [b]) s'.fileBuf s'.arrivals := by
            rw [hbuffer]
            exact hread
          simp only [hchar, hindex]
          refine .ite (fun hb => ?_) fun hb => ?_
          · subst hb
            refine .pure fun q hq => ⟨s.buffer, hend, ?_, by rw [hbuffer], hread, hlog⟩
            obtain rfl := Option.some.inj hq
            rw [lastBegin_concat, if_neg (by decide), hbuffer]
          · refine (ih _ hread ?_ rfl).mono (fun r s'' hr q hq => ?_) fun _ _ _ => trivial
            · rw [hbuffer]
              intro hmem
              rcases List.mem_append.mp hmem with hmem | hmem
              · exact hend hmem
              · exact hb (List.mem_singleton.mp hmem).symm
            · obtain ⟨body, hno, hq', hbuf, hra, hlog'⟩ := hr q hq
              exact ⟨body, hno, hq', hbuf, hra, hlog'.trans hlog⟩

/-! ## A packet -/

theorem takeWhile_body {body : List Byte} (hno : packetEndChar ∉ body) (rest : List Byte) :
    (body ++ packetEndChar :: rest).takeWhile (· != packetEndChar) = body := by
  have hall : ∀ c ∈ body, (c != packetEndChar) = true := by
    intro c hc
    rw [bne_iff_ne]
    rintro rfl
    exact hno hc
  rw [List.takeWhile_append_of_pos hall, List.takeWhile_cons_of_neg (by simp), List.append_nil]

theorem frameOf_eq {body sum rest : List Byte} (hno : packetEndChar ∉ body)
    (hsum : sum.length = 2 ∨ sum.length < 2 ∧ rest = []) :
    frameOf (body ++ packetEndChar :: (sum ++ rest)) = body ++ packetEndChar :: sum := by
  rw [frameOf, takeWhile_body hno]
  rcases hsum with hsum | ⟨hsum, rfl⟩
  · have hlen : (body ++ packetEndChar :: sum).length = body.length + 3 := by simp [hsum]
    have happ : body ++ packetEndChar :: (sum ++ rest) = (body ++ packetEndChar :: sum) ++ rest := by
      simp
    rw [happ, ← hlen, List.take_left]
  · rw [List.append_nil, List.take_of_length_le]
    simp only [List.length_append, List.length_cons]
    omega

/-- What was read up to the second character behind the `#` is the packet. -/
theorem frame_eq {body buf₃ buf₄ : List Byte} {left₃ left₄ : List Arrival} {c₀ c₁ : Option Byte}
    (hno : packetEndChar ∉ body)
    (h₃ : ReadAhead ps (body ++ [packetEndChar] ++ c₀.toList) buf₃ left₃)
    (hend₃ : c₀ = none → buf₃ = [] ∧ left₃ = [])
    (h₄ : ReadAhead ps (body ++ [packetEndChar] ++ c₀.toList ++ c₁.toList) buf₄ left₄)
    (hend₄ : c₁ = none → buf₄ = [] ∧ left₄ = []) :
    body ++ [packetEndChar] ++ c₀.toList ++ c₁.toList = frameOf (contents ps) := by
  have hall := h₄.contents_eq
  have hsum : (c₀.toList ++ c₁.toList).length = 2 ∨ (c₀.toList ++ c₁.toList).length < 2 ∧
      buf₄ ++ contents left₄ = [] := by
    cases c₁ with
    | none =>
        obtain ⟨rfl, rfl⟩ := hend₄ rfl
        refine .inr ⟨?_, rfl⟩
        cases c₀ with
        | none => exact Nat.zero_lt_two
        | some b => exact Nat.one_lt_two
    | some b₁ =>
        cases c₀ with
        | some b₀ => exact .inl rfl
        | none =>
            obtain ⟨rfl, rfl⟩ := hend₃ rfl
            have hlen := congrArg List.length (hall.symm.trans h₃.contents_eq)
            simp at hlen
  have hframe := frameOf_eq hno hsum
  rw [hall]
  simp only [List.append_assoc, List.singleton_append] at hframe ⊢
  exact hframe.symm

/-- What `recvAndCheck` can return. -/
def IsOutcome (fb : FuncReturnFeedback) : Prop := fb = .ok ∨ fb = .protocolErr ∨ fb = .chksumErr

theorem checkPacket_sat (packet_begin_index : Int) (packet_size : Nat) (c₀ c₁ : Byte) :
    Sat s (checkPacket env packet_begin_index packet_size c₀ c₁)
      (fun fb s' => (∃ b n, s' = { s with packetBeginIndex := b, packetSize := n }) ∧ IsOutcome fb ∧
        (fb = .ok → packet_begin_index ≠ -1 ∧ s'.packetBeginIndex = packet_begin_index ∧
          s'.packetSize = packet_size))
      (fun _ _ => True) := by
  refine .ite (fun _ => .pure ⟨⟨_, _, rfl⟩, .inr (.inl rfl), nofun⟩) fun hne => .bind (.get ?_)
  refine .ite (fun _ => .pure ⟨⟨_, _, rfl⟩, .inr (.inr rfl), nofun⟩) fun _ => ?_
  exact .bind (.modify (.pure ⟨⟨_, _, rfl⟩, .inl rfl, fun _ => ⟨hne, rfl, rfl⟩⟩))

theorem acceptClient_sat : Sat s (acceptClient env)
    (fun _ s' => ∃ fd fd', s' = { s with recvFD := fd, sendFD := fd' }) (fun _ _ => True) := by
  refine .bind (.get (.ite (fun _ => .bind (.modify (.bind (.get (.ite (fun _ => .throw trivial)
    fun _ => .pure ?_))))) fun _ => .bind (.get (.ite (fun _ => .throw trivial)
    fun _ => .pure ?_))))
  · exact ⟨_, _, rfl⟩
  · exact ⟨_, _, rfl⟩

/-- `recvAndCheck` is given the packet that is next on the descriptor. -/
theorem recvAndCheck_sat (env : StubEnv) (s : Stub γ) : Sat s (recvAndCheck env)
    (fun fb s' => s'.log = s.log ++ [.checked (frameOf (unread s)) fb] ∧
      ReadAhead s.arrivals (frameOf (unread s)) s'.fileBuf s'.arrivals ∧ IsOutcome fb ∧
      (fb = .ok → packet s' = payloadOf (frameOf (unread s))))
    (fun _ _ => True) := by
  refine acceptClient_sat.bind_of fun _ s₁ h₁ => ?_
  obtain ⟨fd, fd', rfl⟩ := h₁
  refine .bind (.modify ((readPacket_sat BUFFER_SIZE (-1) (ReadAhead.start s.arrivals)
    (by simp) rfl).bind_of fun r s₂ h₂ => ?_))
  cases r with
  | none => exact .throw trivial
  | some q =>
      obtain ⟨body, hno, rfl, hbuffer, hread, hlog⟩ := h₂ q rfl
      rw [hbuffer] at hread
      refine (getc_sat hread).bind_of fun c₀ s₃ h₃ => ?_
      obtain ⟨hs₃, hread₃, hend₃⟩ := h₃
      refine (getc_sat hread₃).bind_of fun c₁ s₄ h₄ => ?_
      obtain ⟨hs₄, hread₄, hend₄⟩ := h₄
      have hframe := frame_eq hno hread₃ hend₃ hread₄ hend₄
      have hbuffer₄ : s₄.buffer = body ++ [packetEndChar] := by rw [hs₄, hs₃, hbuffer]
      have hlog₄ : s₄.log = s.log := by rw [hs₄, hs₃, hlog]
      refine (checkPacket_sat _ _ _ _).bind_of fun fb s₅ h₅ => ?_
      obtain ⟨⟨b, n, rfl⟩, hout, hok⟩ := h₅
      refine .bind (.get (.bind (.modify (.pure ⟨?_, ?_, hout, fun hfb => ?_⟩))))
      · show s₄.log ++ [.checked (s₄.buffer ++ c₀.toList ++ c₁.toList) fb] = _
        rw [hlog₄, hbuffer₄, hframe]
        rfl
      · rw [hframe] at hread₄
        exact hread₄
      · obtain ⟨hne, rfl, rfl⟩ := hok hfb
        show (s₄.buffer.drop _).take _ = payloadOf (frameOf (contents s.arrivals))
        rw [← hframe, payloadOf, hbuffer₄, payload_eq hne]
        simp only [List.append_assoc, List.cons_append]
        rw [takeWhile_body hno]

/-! ## Acknowledgements -/

/-- What the stub was given and what is to come, together. -/
def SameStream (s s' : Stub γ) : Prop := taken s' ++ unread s' = taken s ++ unread s

instance : IsPreorder (Stub γ) SameStream where
  refl _ := rfl
  trans _ _ _ h h' := h'.trans h

theorem emit_sameStream {e : StubEvent} (he : e.taken = []) :
    Keeps SameStream (emit e : StubM γ Unit) := by
  intro s
  refine .modify ?_
  show taken _ ++ unread s = taken s ++ unread s
  rw [taken, List.flatMap_append, List.flatMap_singleton, he, List.append_nil, taken]

theorem readByte_sameStream : Keeps SameStream (readByte : StubM γ (Option Byte)) := by
  refine fun s => (readByte_sat s).mono (fun _ s' h => ?_) fun e s' h => ?_
  · rcases h with rfl | ⟨a, arrivals, harr, rfl⟩
    · rfl
    · show (s.log ++ [StubEvent.ackRead a.first]).flatMap StubEvent.taken ++
        contents (a.pop ++ arrivals) = _
      rw [taken, unread, harr, List.flatMap_append, Pieces.contents_append, Pieces.contents_pop,
        Pieces.contents_cons, List.append_assoc]
      rfl
  · rw [h.2]
    rfl

/-- `packingAndSend` takes its acknowledgements off the stream and nothing else. -/
theorem packingAndSend_sameStream (data : List Byte) :
    Keeps SameStream (packingAndSend data : StubM γ Unit) :=
  packingAndSend_keeps readByte_sameStream (fun _ => emit_sameStream rfl)
    (fun _ => emit_sameStream rfl) data

/-! ## Runs -/

/-- A call of `recvAndCheck` that returned. -/
structure Reception (γ : Type) where
  before : Stub γ
  feedback : FuncReturnFeedback
  after : Stub γ

/-- The packet that the call was given is followed by the end of an arrival. -/
def Reception.EndsArrival (r : Reception γ) : Prop :=
  EndsPiece r.before.arrivals (frameOf (unread r.before))

/-- The stub after calls of `recvAndCheck` and `packingAndSend`, on a connection with the bytes
`stream`, and the calls of `recvAndCheck`. -/
inductive StubRun (env : StubEnv) (stream : List Byte) : List (Reception γ) → Stub γ → Prop where
  | start (s : Stub γ) (hlog : s.log = []) (hstream : unread s = stream) : StubRun env stream [] s
  | receive {trace : List (Reception γ)} {s s' : Stub γ} {fb : FuncReturnFeedback}
      (h : StubRun env stream trace s) (hr : (recvAndCheck env).run s = .ok fb s') :
      StubRun env stream (trace ++ [⟨s, fb, s'⟩]) s'
  /-- It may wait for an acknowledgement. -/
  | send {trace : List (Reception γ)} {s : Stub γ} (data : List Byte)
      (h : StubRun env stream trace s) :
      StubRun env stream trace (Run.final ((packingAndSend data).run s))
  /-- What else the stub does reads nothing. -/
  | other {trace : List (Reception γ)} {s s' : Stub γ} (h : StubRun env stream trace s)
      (htaken : taken s' = taken s) (harrivals : s'.arrivals = s.arrivals) :
      StubRun env stream trace s'

/-- The bytes that no `FILE` handed out. -/
def lost (trace : List (Reception γ)) : Nat := (trace.map fun r => r.after.fileBuf.length).sum

/-- What the stub was given is the stream as far as it has been read, and a packet that it accepted is
the one that was next. -/
structure ReadsInOrder (stream : List Byte) (trace : List (Reception γ)) (s : Stub γ) : Prop where
  bytes : taken s ++ unread s = stream
  packets : ∀ r ∈ trace, r.feedback = .ok → packet r.after = payloadOf (frameOf (unread r.before))

/-- The state of a run by what was lost. -/
structure RunInv (stream : List Byte) (trace : List (Reception γ)) (s : Stub γ) : Prop where
  count : (taken s).length + lost trace + (unread s).length = stream.length
  kept : lost trace = 0 → taken s ++ unread s = stream
  ends : ∀ r ∈ trace, r.after.fileBuf = [] ↔ r.EndsArrival
  packets : ∀ r ∈ trace, r.feedback = .ok → packet r.after = payloadOf (frameOf (unread r.before))

variable {stream : List Byte} {trace : List (Reception γ)}

theorem taken_concat (s : Stub γ) (e : StubEvent) :
    (s.log ++ [e]).flatMap StubEvent.taken = taken s ++ e.taken := by
  rw [List.flatMap_append, List.flatMap_singleton, taken]

/-- A call of `recvAndCheck` loses what its `FILE` still holds. -/
theorem RunInv.receive (h : RunInv stream trace s) {fb : FuncReturnFeedback}
    (hr : (recvAndCheck env).run s = .ok fb s') : RunInv stream (trace ++ [⟨s, fb, s'⟩]) s' := by
  obtain ⟨hlog, hread, -, hpacket⟩ := (recvAndCheck_sat env s).ok hr
  have htaken : taken s' = taken s ++ frameOf (unread s) := by
    rw [taken, hlog, taken_concat]
    rfl
  have hunread : unread s = frameOf (unread s) ++ s'.fileBuf ++ unread s' := hread.contents_eq
  have hlost : lost (trace ++ [⟨s, fb, s'⟩]) = lost trace + s'.fileBuf.length := by
    simp [lost]
  refine ⟨?_, fun hzero => ?_, fun r hr => ?_, fun r hr => ?_⟩
  · have hcount := h.count
    have hlen := congrArg List.length hunread
    simp only [List.length_append] at hlen
    rw [hlost, htaken, List.length_append]
    omega
  · rw [hlost] at hzero
    obtain ⟨hzero, hbuf⟩ := Nat.add_eq_zero_iff.mp hzero
    rw [List.eq_nil_of_length_eq_zero hbuf, List.append_nil] at hunread
    rw [htaken, List.append_assoc, ← hunread]
    exact h.kept hzero
  · rcases List.mem_append.mp hr with hr | hr
    · exact h.ends r hr
    · obtain rfl := List.mem_singleton.mp hr
      exact hread.buf_eq_nil_iff
  · rcases List.mem_append.mp hr with hr | hr
    · exact h.packets r hr
    · obtain rfl := List.mem_singleton.mp hr
      exact hpacket

theorem RunInv.same (h : RunInv stream trace s) (hs : SameStream s s') : RunInv stream trace s' := by
  have hlen := congrArg List.length hs
  simp only [List.length_append] at hlen
  refine ⟨?_, fun hzero => hs.trans (h.kept hzero), h.ends, h.packets⟩
  have hcount := h.count
  omega

theorem StubRun.inv (hr : StubRun env stream trace s) : RunInv stream trace s := by
  induction hr with
  | start s hlog hstream =>
      have htaken : taken s = [] := by rw [taken, hlog, List.flatMap_nil]
      refine ⟨?_, fun _ => ?_, by simp, by simp⟩
      · rw [htaken, hstream, lost, List.map_nil, List.sum_nil, List.length_nil, Nat.zero_add,
          Nat.zero_add]
      · rw [htaken, hstream, List.nil_append]
  | receive _ hcall ih => exact ih.receive hcall
  | send data _ ih => exact ih.same (packingAndSend_sameStream data _).final
  | other _ htaken harrivals ih =>
      refine ih.same ?_
      rw [SameStream, htaken, unread, unread, harrivals]

/-- The stub reads the stream in order in the runs in which each packet ends with an arrival, and in
no other. -/
theorem reads_in_order_iff (hr : StubRun env stream trace s) :
    ReadsInOrder stream trace s ↔ ∀ r ∈ trace, r.EndsArrival := by
  have hinv := hr.inv
  have hzero : lost trace = 0 ↔ ∀ r ∈ trace, r.after.fileBuf = [] := by
    rw [lost, List.sum_eq_zero_iff_forall_eq_nat, List.forall_mem_map]
    exact forall₂_congr fun r _ => List.length_eq_zero_iff
  constructor
  · intro h r hmem
    have hcount := hinv.count
    have hlen := congrArg List.length h.bytes
    rw [List.length_append] at hlen
    exact (hinv.ends r hmem).mp (hzero.mp (by omega) r hmem)
  · intro h
    refine ⟨hinv.kept (hzero.mpr fun r hmem => ?_), hinv.packets⟩
    exact (hinv.ends r hmem).mpr (h r hmem)

/-- A stub for the core, to which a client connects that sends these arrivals. -/
def connected (core : γ) (arrivals : List Arrival) : Stub γ :=
  { buffer := []
    packetBeginIndex := 0
    packetSize := 0
    debuggedCore := ⟨core, ∅⟩
    recvFD := -1
    sendFD := -1
    fileBuf := []
    arrivals := arrivals
    closed := false
    log := [] }

/-- A stub that validates check sums. -/
def validating : StubEnv :=
  { validate := true, indeterminate := 0, stackLimit := 4096, fuel := 16, accepted := 4 }

/-- The first arrival is `$?#3f` and what else the client had sent by then. -/
def haltReason (others : List Byte) (arrivals : List Arrival) : Stub Unit :=
  connected () (⟨ch '$', str ['?', '#', '3', 'f'] ++ others⟩ :: arrivals)

theorem run_haltReason (others : List Byte) (arrivals : List Arrival) : ∃ s,
    (recvAndCheck validating).run (haltReason others arrivals) = .ok .ok s ∧ s.fileBuf = others :=
  ⟨_, rfl, rfl⟩

theorem reads_in_order_iff_alone : ∃ stream trace s, StubRun validating stream trace (s : Stub Unit) ∧
    trace ≠ [] ∧ ReadsInOrder stream trace s := by
  obtain ⟨s, hr, -⟩ := run_haltReason [] [⟨ch '+', []⟩]
  have hrun := (StubRun.start _ rfl rfl).receive hr
  refine ⟨_, _, s, hrun, by simp, (reads_in_order_iff hrun).mpr fun r hmem => ?_⟩
  obtain rfl := List.mem_singleton.mp hmem
  exact ⟨1, rfl⟩

/-- A packet that arrives together with the one before it is lost. -/
theorem second_packet_lost : ∃ stream trace s, StubRun validating stream trace (s : Stub Unit) ∧
    ¬ReadsInOrder stream trace s := by
  obtain ⟨s, hr, hbuf⟩ := run_haltReason (str ['$', 'g', '#', '6', '7']) []
  have hrun := (StubRun.start _ rfl rfl).receive hr
  refine ⟨_, _, s, hrun, fun h => ?_⟩
  have hlost := hrun.inv.count
  rw [← congrArg List.length h.bytes, List.length_append] at hlost
  have hfive : lost ([] ++ [⟨haltReason (str ['$', 'g', '#', '6', '7']) [], .ok, s⟩]) = 5 := by
    simp [lost, hbuf, str]
  omega

/-! ## The loop of the stub -/

section Session

open Run (Preserves)

/-- The state is one of a run. -/
def InRun (env : StubEnv) (stream : List Byte) (s : Stub γ) : Prop :=
  ∃ trace, StubRun env stream trace s

/-- A step that does not leave the runs. -/
def StaysInRun (env : StubEnv) (stream : List Byte) (s s' : Stub γ) : Prop :=
  InRun env stream s → InRun env stream s'

instance : IsPreorder (Stub γ) (StaysInRun env stream) where
  refl _ := id
  trans _ _ _ h h' := h' ∘ h

theorem emit_inRun {e : StubEvent} (he : e.taken = []) :
    Keeps (StaysInRun env stream) (emit e : StubM γ Unit) := by
  refine fun s => .modify fun h => ?_
  obtain ⟨trace, h⟩ := h
  exact ⟨trace, h.other (by rw [taken, taken_concat, he, List.append_nil]) rfl⟩

theorem packingAndSend_inRun (data : List Byte) :
    Keeps (StaysInRun env stream) (packingAndSend data : StubM γ Unit) := by
  refine fun s => .intro (fun a s' hr h => ?_) fun e s' hr h => ?_
  all_goals
    obtain ⟨trace, h⟩ := h
    have hsend := h.send data
    rw [hr] at hsend
    exact ⟨trace, hsend⟩

theorem recvAndCheck_inRun : Preserves (InRun env stream) (recvAndCheck (γ := γ) env) :=
  fun _ ⟨_, h⟩ => .intro (fun _ _ hr => ⟨_, h.receive hr⟩) fun _ _ _ => trivial

theorem retry_inRun (err : FuncReturnFeedback) (left : Nat) (feedback : FuncReturnFeedback) :
    Preserves (InRun env stream) (retry (γ := γ) env err left feedback) := by
  have hnak : Preserves (InRun env stream) (sendNAK : StubM γ Unit) := (emit_inRun rfl).preserves
  induction left generalizing feedback with
  | zero =>
      rw [retry]
      exact .ite (.throw _) (.pure _)
  | succ left ih =>
      rw [retry]
      exact .ite (.bind hnak fun _ => .bind recvAndCheck_inRun fun _ => ih _) (.pure _)

theorem recvPacket_inRun : Preserves (InRun env stream) (recvPacket (γ := γ) env) :=
  .bind recvAndCheck_inRun fun _ => .bind (retry_inRun _ _ _) fun _ =>
    .bind (retry_inRun _ _ _) fun _ => .bind (emit_inRun rfl).preserves fun _ =>
      .bind (emit_inRun rfl).preserves fun _ => .pure _

/-- What the loop of the stub does is a run. -/
theorem debug_inRun [ProcessorCoreI γ] (n : Nat) :
    Preserves (InRun env stream) (debug (γ := γ) env n) := by
  induction n with
  | zero => exact .pure _
  | succ n ih =>
      refine .bind (.bind recvPacket_inRun fun fb => .ite (.throw _) (.bind .get fun s => ?_))
        fun _ => ih
      rw [dispatch_eq]
      refine .ite (.bind (emit_inRun rfl).preserves fun _ => ?_) (.throw _)
      refine (command_keeps env _ packingAndSend_inRun fun s c h => ?_).preserves
      obtain ⟨trace, h⟩ := h
      exact ⟨trace, h.other rfl rfl⟩

end Session

end GDBStub

end MEmu
