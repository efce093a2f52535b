import MEmu.HexText
import MEmu.ReadAhead
import MEmu.Lib.RiscVAlu
import Mathlib.Algebra.BigOperators.Group.List.Basic
import Mathlib.Data.BitVec

/-!
# Frames

A frame that `packingAndSend` writes is accepted by `recvAndCheck`, whatever stray bytes are in
front of it, and a frame of which one byte of the payload was changed is not.  Both ends compute the
same check sum, the sum of the bytes, and no two bytes have the same share in it.
-/

namespace MEmu

namespace GDBStub

open Run (Sat)
open Pieces (contents)

variable {γ : Type} {env : StubEnv} {s s' : Stub γ} {b : Byte} {data body rest : List Byte}

/-! ## The check sum -/

theorem foldl_signExtend (data : List Byte) (sum : Word) :
    (data.foldl (fun sum c => sum + c.signExtend 64) sum).setWidth 8
      = sum.setWidth 8 + data.sum := by
  induction data generalizing sum with
  | nil => simp
  | cons c data ih =>
      have hc : (c.signExtend 64).setWidth 8 = c := by
        rw [BitVec.signExtend, RiscV.setWidth_ofInt _ (by decide), BitVec.ofInt_toInt]
      rw [List.foldl_cons, ih, BitVec.setWidth_add _ _ (by omega), hc, List.sum_cons, add_assoc]

/-- The sign of a character has no share in the check sum. -/
theorem calCheckSum_eq_sum (data : List Byte) : calCheckSum data = data.sum := by
  rw [calCheckSum, foldl_signExtend]
  simp

/-- One byte that is changed changes the check sum. -/
theorem calCheckSum_set {i : Nat} (hi : i < data.length) (hne : b ≠ data[i]) :
    calCheckSum (data.set i b) ≠ calCheckSum data := by
  rw [calCheckSum_eq_sum, calCheckSum_eq_sum, List.set_eq_take_cons_drop b hi]
  have hdata : data = data.take i ++ data[i] :: data.drop (i + 1) := by
    rw [List.getElem_cons_drop, List.take_append_drop]
  have hsum : data.sum = (data.take i).sum + (data[i] + (data.drop (i + 1)).sum) := by
    rw [← List.sum_cons, ← List.sum_append, ← hdata]
  rw [List.sum_append, List.sum_cons, hsum]
  intro h
  exact hne (add_right_cancel (add_left_cancel h))

/-! ## The bytes of a frame -/

/-- What the `FILE` is to hand out, and what it will take off the descriptor. -/
def pending (s : Stub γ) : List Byte := s.fileBuf ++ contents s.arrivals

/-- A character that is there is read. -/
theorem getc_next (h : pending s = b :: rest) : Sat s getc
    (fun c s' => c = some b ∧ pending s' = rest ∧
      s' = { s with fileBuf := s'.fileBuf, arrivals := s'.arrivals }) (fun _ _ => False) := by
  refine .bind (.get ?_)
  split
  · rename_i b' fileBuf hbuf
    rw [pending, hbuf, List.cons_append] at h
    obtain ⟨rfl, hrest⟩ := List.cons.inj h
    exact .bind (.set (.pure ⟨rfl, hrest, rfl⟩))
  · rename_i a arrivals hbuf harr
    rw [pending, hbuf, harr, List.nil_append, Pieces.contents_cons] at h
    obtain ⟨rfl, hrest⟩ := List.cons.inj h
    exact .bind (.set (.pure ⟨rfl, hrest, rfl⟩))
  · rename_i hbuf harr
    rw [pending, hbuf, harr] at h
    cases h

/-- The loop comes to the first `#`, if the places in `buffer` last that long. -/
theorem readPacket_finishes (body : List Byte) {n : Nat} (hn : body.length < n)
    (hno : packetEndChar ∉ body) (h : pending s = body ++ packetEndChar :: rest) :
    Sat s (readPacket n (lastBegin s.buffer))
      (fun r s' => r = some (lastBegin (s.buffer ++ body),
          (((s.buffer ++ body).length : Int) - lastBegin (s.buffer ++ body)).toNat) ∧
        s'.buffer = s.buffer ++ body ++ [packetEndChar] ∧ pending s' = rest)
      (fun _ _ => False) := by
  induction body generalizing s n with
  | nil =>
      obtain ⟨n, rfl⟩ := Nat.exists_eq_add_one.mpr hn
      refine .bind ((getc_next h).mono (fun c s' hc => ?_) fun _ _ => id)
      obtain ⟨rfl, hrest, hs'⟩ := hc
      have hbuffer : s'.buffer = s.buffer := by rw [hs']
      refine .bind (.get (.bind (.modify (.ite (fun _ => .pure ⟨?_, ?_, hrest⟩) fun hne => ?_))))
      · rw [List.append_nil, hbuffer]
        rfl
      · rw [List.append_nil]
        exact congrArg (· ++ [packetEndChar]) hbuffer
      · exact absurd rfl hne
  | cons c body ih =>
      obtain ⟨n, rfl⟩ := Nat.exists_eq_add_one.mpr (Nat.zero_lt_of_lt hn)
      rw [List.mem_cons, not_or] at hno
      refine .bind ((getc_next h).mono (fun c' s' hc => ?_) fun _ _ => id)
      obtain ⟨rfl, hrest, hs'⟩ := hc
      have hbuffer : s'.buffer = s.buffer := by rw [hs']
      refine .bind (.get (.bind (.modify (.ite (fun hend => ?_) fun _ => ?_))))
      · exact absurd hend.symm hno.1
      · have hindex : (if asChar (some c) = packetBeginChar then (s'.buffer.length : Int) + 1
            else lastBegin s.buffer) = lastBegin (s.buffer ++ [c]) := by
          rw [lastBegin_concat, hbuffer]
          rfl
        rw [hindex]
        have hstep := ih (s := { s' with buffer := s'.buffer ++ [c] }) (n := n)
          (by simpa using hn) hno.2 hrest
        simp only [hbuffer, List.append_assoc, List.singleton_append] at hstep ⊢
        exact hstep

/-! ## The check -/

/-- The check sum behind a frame is read as it was written. -/
theorem scanCheckSum_hexByte (b : Byte) :
    scanCheckSum (hexChar (b.toNat / 16)) (hexChar (b.toNat % 16)) = some b := by
  have hspells := hexByte_spells b .nil
  have hall := hspells.allDigits
  have hhi := hall (hexChar (b.toNat / 16)) (by simp [hexByte])
  have hlo := hall (hexChar (b.toNat % 16)) (by simp [hexByte])
  have hparse := hspells.parse
  simp only [hexByte, List.cons_append, List.nil_append, parseByteStreamStr] at hparse
  rw [scanCheckSum, hhi, hlo]
  exact congrArg some (List.cons.inj hparse).1

/-- Where there is a `$`, the data behind the last one decide. -/
theorem checkPacket_data (hval : env.validate = true) (hmem : packetBeginChar ∈ body)
    (hbuffer : s.buffer = body ++ rest) :
    Sat s (checkPacket env (lastBegin body) ((body.length : Int) - lastBegin body).toNat
        (hexChar (b.toNat / 16)) (hexChar (b.toNat % 16)))
      (fun fb s' => s'.buffer = s.buffer ∧
        if b = calCheckSum (body.rtakeWhile (· != packetBeginChar))
        then fb = .ok ∧ packet s' = body.rtakeWhile (· != packetBeginChar)
        else fb = .chksumErr)
      (fun _ _ => False) := by
  have hne : lastBegin body ≠ -1 := by
    rw [lastBegin, if_pos hmem]
    omega
  have hdata : (s.buffer.drop (lastBegin body).toNat).take
      ((body.length : Int) - lastBegin body).toNat = body.rtakeWhile (· != packetBeginChar) := by
    rw [hbuffer]
    exact payload_eq hne
  refine .ite (fun h => absurd h hne) fun _ => .bind (.get ?_)
  simp only [hdata, scanCheckSum_hexByte, hval, Option.getD_some, Bool.true_and]
  refine .ite (fun hb => .pure ⟨rfl, ?_⟩) fun hb => .bind (.modify (.pure ⟨rfl, ?_⟩))
  · rw [if_neg (bne_iff_ne.mp hb)]
  · rw [if_pos (by simpa using hb)]
    exact ⟨rfl, hdata⟩

/-! ## Frames -/

theorem rtakeWhile_frame {pre payload : List Byte} (h : packetBeginChar ∉ payload) :
    (pre ++ packetBeginChar :: payload).rtakeWhile (· != packetBeginChar) = payload := by
  induction payload using List.reverseRecOn with
  | nil => exact List.rtakeWhile_concat_neg _ _ _ (by simp)
  | append_singleton payload c ih =>
      rw [List.mem_append, List.mem_singleton, not_or] at h
      rw [← List.cons_append, ← List.append_assoc,
        List.rtakeWhile_concat_pos _ _ _ (by simpa using Ne.symm h.2), ih h.1]

/-- `recvAndCheck` on a stream that starts with stray bytes and a frame: the payload is accepted
if the check sum behind it is its own, and refused if not. -/
theorem recvAndCheck_frame (hval : env.validate = true)
    (hconn : s.recvFD ≠ -1 ∨ env.accepted ≠ -1) {pre payload : List Byte}
    (hbegin : packetBeginChar ∉ payload) (hend : packetEndChar ∉ payload)
    (hpre : packetEndChar ∉ pre) (hfit : pre.length + payload.length + 2 ≤ BUFFER_SIZE)
    (hstream : unread s = pre ++ packetBeginChar :: payload ++ packetEndChar :: hexByte b ++ rest) :
    Sat s (recvAndCheck env)
      (fun fb s' => if b = calCheckSum payload then fb = .ok ∧ packet s' = payload
        else fb = .chksumErr)
      (fun _ _ => False) := by
  have haccept : Sat s (acceptClient env)
      (fun _ s' => ∃ fd fd', s' = { s with recvFD := fd, sendFD := fd' }) (fun _ _ => False) := by
    refine .bind (.get (.ite (fun hfd => ?_) fun hfd => ?_))
    · have hacc := hconn.resolve_left (not_not_intro hfd)
      refine .bind (.modify (.bind (.get ?_)))
      exact .ite (fun h => absurd h hacc) fun _ => .pure ⟨_, _, rfl⟩
    · exact .bind (.get (.ite (fun h => absurd h hfd) fun _ => .pure ⟨_, _, rfl⟩))
  refine .bind (haccept.mono (fun _ s₁ h₁ => ?_) fun _ _ => id)
  obtain ⟨fd, fd', rfl⟩ := h₁
  have hno : packetEndChar ∉ pre ++ packetBeginChar :: payload := by
    rw [List.mem_append, List.mem_cons, not_or, not_or]
    exact ⟨hpre, by decide, hend⟩
  have hlen : (pre ++ packetBeginChar :: payload).length < BUFFER_SIZE := by
    simp only [List.length_append, List.length_cons]
    omega
  have hpending : pending { s with recvFD := fd, sendFD := fd', fileBuf := [], buffer := [] } =
      (pre ++ packetBeginChar :: payload) ++ packetEndChar :: (hexByte b ++ rest) := by
    refine hstream.trans ?_
    simp
  refine .bind (.modify (.bind ((readPacket_finishes _ hlen hno hpending).mono
    (fun r s₂ h₂ => ?_) fun _ _ => id)))
  obtain ⟨rfl, hbuffer, hrest⟩ := h₂
  refine .bind ((getc_next hrest).mono (fun c₀ s₃ h₃ => ?_) fun _ _ => id)
  obtain ⟨rfl, hrest₃, hs₃⟩ := h₃
  refine .bind ((getc_next hrest₃).mono (fun c₁ s₄ h₄ => ?_) fun _ _ => id)
  obtain ⟨rfl, -, hs₄⟩ := h₄
  have hbuffer₄ : s₄.buffer = (pre ++ packetBeginChar :: payload) ++ [packetEndChar] := by
    rw [hs₄, hs₃, hbuffer]
    rfl
  refine .bind ((checkPacket_data hval (by simp) hbuffer₄).mono (fun fb s₅ h₅ => ?_)
    fun _ _ => id)
  rw [rtakeWhile_frame hbegin] at h₅
  exact .bind (.get (.bind (.modify (.pure h₅.2))))

/-- The frame is one that `packingAndSend` writes for the payload. -/
def Writes (payload frame : List Byte) : Prop :=
  ∀ (γ : Type) (s : Stub γ),
    s.log ++ [.sent frame] <+: (Run.final ((packingAndSend payload).run s)).log

/-- What `packingAndSend` writes is what it packs. -/
theorem writes_iff {payload frame : List Byte} :
    Writes payload frame ↔ frame = packing payload := by
  have hprefix {γ : Type} (s : Stub γ) : s.log ++ [.sent (packing payload)] <+:
      (Run.final ((packingAndSend payload).run s)).log := by
    have hkeeps : Run.Keeps (Grows fun _ => True) (do
        let read ← readByte
        resend (packing payload) 10 (read.getD (ch '-')) : StubM γ Unit) :=
      .bind (readByte_grows fun _ => trivial) fun _ =>
        resend_keeps (readByte_grows fun _ => trivial) (fun _ => emit_grows trivial) _ _ _
    have hsat : Sat s (packingAndSend payload)
        (fun _ s' => s.log ++ [.sent (packing payload)] <+: s'.log)
        (fun _ s' => s.log ++ [.sent (packing payload)] <+: s'.log) := by
      refine .bind (.modify ((hkeeps _).mono (fun _ s' h => ?_) fun _ s' h => ?_))
      all_goals
        obtain ⟨events, hlog, -⟩ := h
        exact ⟨events, hlog.symm⟩
    exact hsat.final
  constructor
  · intro h
    have hframe := h Unit (connected () [])
    have hpacked := hprefix (connected () [])
    have heq := (List.prefix_of_prefix_length_le hframe hpacked (by simp)).eq_of_length (by simp)
    simpa using heq
  · rintro rfl γ s
    exact hprefix s

/-- A frame behind stray bytes is accepted with its payload.  With one byte of the payload changed
it is refused. -/
theorem frame_round_trip (s : Stub γ) (rest : List Byte) (hval : env.validate = true)
    (hconn : s.recvFD ≠ -1 ∨ env.accepted ≠ -1) {pre payload frame : List Byte}
    (hframe : Writes payload frame) (hbegin : packetBeginChar ∉ payload)
    (hend : packetEndChar ∉ payload) (hpre : packetEndChar ∉ pre)
    (hfit : pre.length + payload.length + 2 ≤ BUFFER_SIZE) :
    (unread s = pre ++ frame ++ rest →
      ∃ s', (recvAndCheck env).run s = .ok .ok s' ∧ packet s' = payload) ∧
    ∀ i, ∀ hi : i < payload.length, ∀ c, c ≠ payload[i] → c ≠ packetBeginChar → c ≠ packetEndChar →
      unread s = pre ++ frame.set (i + 1) c ++ rest →
      ∃ s', (recvAndCheck env).run s = .ok .chksumErr s' := by
  obtain rfl := writes_iff.mp hframe
  constructor
  · intro hstream
    have hbytes : unread s = pre ++ packetBeginChar :: payload ++
        packetEndChar :: hexByte (calCheckSum payload) ++ rest := by
      rw [hstream]
      simp [packing]
    have hsat := recvAndCheck_frame hval hconn hbegin hend hpre hfit hbytes
    obtain ⟨fb, s', hr, h⟩ := hsat.exists_ok
    rw [if_pos rfl] at h
    obtain ⟨rfl, hpacket⟩ := h
    exact ⟨s', hr, hpacket⟩
  · intro i hi c hne hcbegin hcend hstream
    have hset : (packing payload).set (i + 1) c = packetBeginChar :: payload.set i c ++
        packetEndChar :: hexByte (calCheckSum payload) := by
      simp [packing, List.set_append_left, hi]
    have hchar {x : Byte} (hx : x ∉ payload) (hcx : c ≠ x) : x ∉ payload.set i c := by
      intro hmem
      rcases List.mem_or_eq_of_mem_set hmem with h | h
      · exact hx h
      · exact hcx h.symm
    have hbytes : unread s = pre ++ packetBeginChar :: payload.set i c ++
        packetEndChar :: hexByte (calCheckSum payload) ++ rest := by
      rw [hstream, hset]
      simp
    have hsat := recvAndCheck_frame hval hconn (hchar hbegin hcbegin) (hchar hend hcend) hpre
      (by rwa [List.length_set]) hbytes
    obtain ⟨fb, s', hr, h⟩ := hsat.exists_ok
    rw [if_neg (calCheckSum_set hi hne).symm] at h
    obtain rfl := h
    exact ⟨s', hr⟩

/-- A frame behind a `$`, and the same frame with its payload changed. -/
theorem frame_round_trip_g : ∃ s s' t t' : Stub Unit,
    (recvAndCheck validating).run s = .ok .ok s' ∧ packet s' = str ['g'] ∧
      (recvAndCheck validating).run t = .ok .chksumErr t' := by
  have hwrites := writes_iff.mpr (rfl : packing (str ['g']) = packing (str ['g']))
  have hbegin : packetBeginChar ∉ str ['g'] := by decide
  have hend : packetEndChar ∉ str ['g'] := by decide
  have hpre : packetEndChar ∉ str ['+', '$'] := by decide
  have hconn : validating.accepted ≠ -1 := by decide
  obtain ⟨s', hs, hpacket⟩ := (frame_round_trip 
    (connected () [⟨ch '+', str ['$', '$', 'g', '#', '6', '7']⟩]) [] rfl (.inr hconn) hwrites hbegin
    hend hpre (by decide)).1 (by decide)
  obtain ⟨t', ht⟩ := (frame_round_trip 
    (connected () [⟨ch '+', str ['$', '$', 'm', '#', '6', '7']⟩]) [] rfl (.inr hconn) hwrites hbegin
    hend hpre (by decide)).2 0 (by decide) (ch 'm') (by decide) (by decide) (by decide) (by decide)
  exact ⟨_, s', _, t', hs, hpacket, ht⟩

end GDBStub

end MEmu
