import MEmu.GdbAddresses
import MEmu.HexText
import MEmu.Replies

/-!
# Registers on the wire

`g` dumps the registers and `G` sets them.  Both have the 32 general registers and the program
counter behind them, eight bytes each, least significant first, each byte as two digits.  So what
`g` replies is what `G` takes, and nothing that has another length is taken.
-/

namespace MEmu

/-! ## Parts of a stream -/

theorem Spells.drop {digits data : List Byte} (h : Spells digits data) (n : Nat) :
    Spells (digits.drop (2 * n)) (data.drop n) := by
  induction n generalizing digits data with
  | zero => exact h
  | succ n ih =>
      cases h with
      | nil => exact .nil
      | cons hhi hlo hval h => exact ih h

theorem Spells.take {digits data : List Byte} (h : Spells digits data) (n : Nat) :
    Spells (digits.take (2 * n)) (data.take n) := by
  induction n generalizing digits data with
  | zero => exact .nil
  | succ n ih =>
      cases h with
      | nil => exact .nil
      | cons hhi hlo hval h => exact .cons hhi hlo hval (ih h)

/-- Sixteen digits of a stream stand for eight of its bytes. -/
theorem Spells.register {digits bytes : List Byte}
    (hdigits : ∀ c ∈ digits, isHexDigit c = true) (hlen : digits.length = 528) {i : Nat}
    (h : Spells ((digits.drop (16 * i)).take 16) bytes) :
    ((parseByteStreamStr digits).drop (i * 8)).take 8 = bytes := by
  have hall : Spells digits (parseByteStreamStr digits) := spells_parse hdigits (n := 264) hlen
  have hpart := (hall.drop (i * 8)).take 8
  have hindex : 2 * (i * 8) = 16 * i := by omega
  rw [hindex] at hpart
  exact hpart.parse.symm.trans h.parse

theorem Bytes.length_ofWord (n : Nat) (v : Word) : (Bytes.ofWord n v).length = n := by
  simp [Bytes.ofWord]

/-- The eight bytes of a word join to it. -/
theorem Bytes.toWord_ofWord (v : Word) : Bytes.toWord (Bytes.ofWord 8 v) = v := by
  have h : (Bytes.toWord (Bytes.ofWord 8 v)).setWidth (8 * 8) = v.setWidth (8 * 8) := by
    refine Bytes.byte_ext (n := 8) fun j hj => ?_
    rw [Bytes.byte_toWord _ (Nat.le_refl 8) hj, Bytes.getD_ofWord hj]
  rwa [BitVec.setWidth_eq, BitVec.setWidth_eq] at h

namespace GDBStub

open Run (Sat)

variable {γ : Type} {env : StubEnv} {digits data : List Byte}

/-! ## Served packets -/

/-- The stub after the switch has served a packet. -/
def serve [ProcessorCoreI γ] (env : StubEnv) (data : List Byte) (s : Stub γ) : Stub γ :=
  Run.final ((dispatch env (parsePacket data)).run s)

/-- What the switch ends in, whether it returns or not, holds of the stub after the packet. -/
theorem serve_of [ProcessorCoreI γ] {P : Stub γ → Prop} {s : Stub γ}
    (h : Sat s (dispatch env (parsePacket data)) (fun _ => P) fun _ => P) :
    P (serve env data s) :=
  h.final

/-- An unknown packet changes nothing on the core. -/
theorem serve_unknown [ProcessorCoreI γ] {s : Stub γ}
    (htype : (parsePacket data).packetType = .cmdUnknown) : SameCore s (serve env data s) := by
  apply serve_of (P := SameCore s)
  rw [dispatch, htype]
  exact .bind (.modify (packingAndSend_sameCore [] _))

/-- The stub replies to a packet with these data. -/
def RepliesWith [ProcessorCoreI γ] (env : StubEnv) (data reply : List Byte) (s : Stub γ) : Prop :=
  replies (serve env data s) = replies s ++ [packing reply]

theorem packing_injective {a b : List Byte} (h : packing a = packing b) : a = b := by
  have hlen := congrArg List.length h
  simp only [packing, hexByte, List.length_append, List.length_cons, List.length_nil] at hlen
  simp only [packing, List.append_assoc, List.singleton_append] at h
  have hbegin := (List.append_inj h (by simpa using hlen)).1
  exact (List.cons.inj hbegin).2

/-- The acknowledgement of a packet is no reply. -/
theorem replies_acked (s : Stub γ) : replies { s with log := s.log ++ [.ack] } = replies s :=
  (List.filterMap_append).trans (List.append_nil _)

/-- A reply, behind the acknowledgement of the packet. -/
theorem send_acked (s : Stub γ) (reply : List Byte) :
    Sat { s with log := s.log ++ [.ack] } (packingAndSend reply)
      (fun _ s' => replies s' = replies s ++ [packing reply] ∧ SameCore s s')
      (fun _ s' => replies s' = replies s ++ [packing reply] ∧ SameCore s s') := by
  have hacked := replies_acked s
  refine ((packingAndSend_replies reply _).and (packingAndSend_sameCore reply _)).mono
    (fun _ s' hs' => ?_) fun _ s' hs' => ?_
  · exact ⟨hs'.1.trans (congrArg (· ++ [packing reply]) hacked), hs'.2⟩
  · exact ⟨hs'.1.2.trans (congrArg (· ++ [packing reply]) hacked), hs'.2⟩

/-! ## The dump -/

section Registers

variable {β : Type}

/-- The registers and the program counter behind them. -/
def registers (m : Machine β) (i : Nat) : Word :=
  if i < 32 then m.core.GPR (BitVec.ofNat 5 i) else m.core.currentProgramCounter

/-- The bytes that a dump has. -/
def dumpBytes (m : Machine β) : List Byte :=
  (List.range 33).flatMap fun i => Bytes.ofWord 8 (registers m i)

theorem dump_eq [MMIOBus β] (m : Machine β) :
    (ProcessorCoreI.dumpRegister m).flatMap dumpItem = (dumpBytes m).flatMap hexByte := by
  have hitems : ∀ i < 32, dumpItem ⟨BitVec.ofNat 16 i, 8, m.core.GPR (BitVec.ofNat 5 i)⟩
      = (Bytes.ofWord 8 (registers m i)).flatMap hexByte := by
    intro i hi
    rw [registers, if_pos hi]
    rfl
  have hgprs : (List.ofFn fun i : Fin 32 => (⟨BitVec.ofNat 16 i, 8, m.core.GPR (BitVec.ofFin i)⟩ :
      RegisterItem)) = (List.range 32).map fun i =>
        ⟨BitVec.ofNat 16 i, 8, m.core.GPR (BitVec.ofNat 5 i)⟩ := by
    refine List.ext_getElem (by simp) fun i hi hi' => ?_
    have hlt : i < 32 := by simpa using hi
    have hreg : (BitVec.ofFin ⟨i, hlt⟩ : BitVec 5) = BitVec.ofNat 5 i := by
      apply BitVec.eq_of_toNat_eq
      simp [Nat.mod_eq_of_lt hlt]
    simp only [List.getElem_ofFn, List.getElem_map, List.getElem_range, hreg]
  have hrange : List.range 33 = List.range 32 ++ [32] := List.range_succ
  have hdump : ProcessorCoreI.dumpRegister m = (List.ofFn fun i : Fin 32 =>
      (⟨BitVec.ofNat 16 i, 8, m.core.GPR (BitVec.ofFin i)⟩ : RegisterItem)) ++
        [⟨32, 8, m.core.currentProgramCounter⟩] := rfl
  rw [hdump, hgprs, dumpBytes, hrange, List.flatMap_append, List.flatMap_append,
    List.flatMap_append, List.flatMap_map, List.flatMap_assoc]
  exact congrArg (· ++ _) (List.flatMap_congr fun i hi => hitems i (List.mem_range.mp hi))

theorem length_dumpBytes (m : Machine β) : (dumpBytes m).length = 264 := by
  simp [dumpBytes, List.length_flatMap, Bytes.length_ofWord]

/-- A register of a dump is where it is to be. -/
theorem reg_of_dump (m : Machine β) {i : Nat} (hi : i < 33) :
    Bytes.toWord (((dumpBytes m).drop (i * 8)).take 8) = registers m i := by
  have hblocks (l : List Nat) (i : Nat) : ((l.flatMap fun i => Bytes.ofWord 8 (registers m i)).drop
      (i * 8)) = (l.drop i).flatMap fun i => Bytes.ofWord 8 (registers m i) := by
    induction i generalizing l with
    | zero => rfl
    | succ i ih =>
        cases l with
        | nil => rfl
        | cons a l =>
            rw [List.flatMap_cons, List.drop_succ_cons, ← ih, Nat.succ_mul, Nat.add_comm,
              ← List.drop_drop, List.drop_left' (Bytes.length_ofWord 8 _)]
  have hcons : (List.range 33).drop i = i :: (List.range 33).drop (i + 1) := by
    rw [List.drop_eq_getElem_cons (by simpa using hi), List.getElem_range]
  rw [dumpBytes, hblocks, hcons, List.flatMap_cons,
    List.take_left' (Bytes.length_ofWord 8 _), Bytes.toWord_ofWord]

theorem registers_ext {m m' : Machine β} (h : ∀ i < 33, registers m' i = registers m i) :
    m'.core.GPR = m.core.GPR ∧
      m'.core.currentProgramCounter = m.core.currentProgramCounter := by
  refine ⟨funext fun r => ?_, h 32 (by decide)⟩
  have hr := h r.toNat (by omega)
  rwa [registers, registers, if_pos r.isLt, if_pos r.isLt, BitVec.ofNat_toNat,
    BitVec.setWidth_eq] at hr

/-! ## The packets -/

variable [MMIOBus β]

/-- `g`. -/
theorem serve_regReadAll (env : StubEnv) {ask : List Byte} (hask : cString ask = [ch 'g'])
    (s : Stub (Machine β)) :
    RepliesWith env ask ((dumpBytes s.debuggedCore.core).flatMap hexByte) s ∧
      SameCore s (serve env ask s) := by
  have hm : Regex.matchesWhole PacketRegex.cmdRegReadAll.whole (cString ask) = true := by
    rw [hask]
    decide
  have htype := (parsePacket_of_row (r := .cmdRegReadAll) (by simp [packetTypeRegexStr]) hm).1
  have hsend := send_acked s ((dumpBytes s.debuggedCore.core).flatMap hexByte)
  rw [← dump_eq] at hsend ⊢
  apply serve_of (P := fun s' => replies s' = replies s ++ [packing _] ∧ SameCore s s')
  rw [dispatch, htype]
  exact .bind (.modify (.bind (.get hsend)))

/-- `G` and digits. -/
theorem parsePacket_regWriteAll (hdata : cString data = ch 'G' :: digits)
    (hdigits : ∀ c ∈ digits, isHexDigit c = true) (hne : digits ≠ []) :
    (parsePacket data).packetType = .cmdRegWriteAll ∧
      (parsePacket data).paramList = [digits] := by
  have hfields : HasFields ['G'] [digits] data := by
    refine ⟨rfl, List.forall_mem_singleton.mpr ⟨hne, hdigits⟩, ?_⟩
    rw [hdata]
    simp [fieldsText]
  exact (hasFields_iff (r := .cmdRegWriteAll) (by simp [packetTypeRegexStr]) rfl rfl
    (not_hexDigit rfl)).mp hfields

theorem run_setRegisters (hlen : digits.length / 16 = 33) (c : ProcessorCore (Machine β)) :
    ∃ c', (setRegisters digits).run c = .ok .ok c' ∧ ∀ i < 33, registers c'.core i
      = Bytes.toWord (((parseByteStreamStr digits).drop (i * 8)).take 8) := by
  have hvals : (regsOfStream 33 8 (parseByteStreamStr digits)).map RegisterItem.val
      = (List.range 33).map fun i =>
        Bytes.toWord (((parseByteStreamStr digits).drop (i * 8)).take 8) := by
    rw [regsOfStream, List.map_map]
    rfl
  have hget {i : Nat} (hi : i < 33) : ((List.range 33).map fun i =>
      Bytes.toWord (((parseByteStreamStr digits).drop (i * 8)).take 8)).getD i 0
        = Bytes.toWord (((parseByteStreamStr digits).drop (i * 8)).take 8) := by
    simp [List.getD, hi]
  have hrun : (setRegisters digits).run c = .ok .ok { c with core := { c.core with core :=
      { c.core.core with
        GPR := fun i => ((List.range 33).map fun i =>
          Bytes.toWord (((parseByteStreamStr digits).drop (i * 8)).take 8)).getD i.toNat 0
        currentProgramCounter := ((List.range 33).map fun i =>
          Bytes.toWord (((parseByteStreamStr digits).drop (i * 8)).take 8)).getD 32 0 } } } := by
    rw [setRegisters, hlen, ← hvals]
    rfl
  refine ⟨_, hrun, fun i hi => ?_⟩
  rw [registers]
  split
  · rename_i hgpr
    have hindex : (BitVec.ofNat 5 i).toNat = i := by simp [Nat.mod_eq_of_lt hgpr]
    show List.getD _ (BitVec.ofNat 5 i).toNat 0 = _
    rw [hindex, hget hi]
  · obtain rfl : i = 32 := by omega
    exact hget hi

theorem run_setRegisters_refused (hlen : digits.length / 16 ≠ 33)
    (c : ProcessorCore (Machine β)) : (setRegisters digits).run c = .ok .invalidParam c := by
  have hregs : ((regsOfStream (digits.length / 16) 8 (parseByteStreamStr digits)).map
      RegisterItem.val).length ≠ 33 := by
    simpa [regsOfStream] using hlen
  show (ProcessorCore.onCore (Machine.writeAllRegister _)).run c = _
  rw [ProcessorCore.run_onCore, Machine.writeAllRegister, Machine.run_onCore,
    RV64Core.writeAllRegister, if_pos hregs]
  rfl

/-- A `G` with 33 registers sets them. -/
theorem serve_regWriteAll (env : StubEnv) (hdata : cString data = ch 'G' :: digits)
    (hdigits : ∀ c ∈ digits, isHexDigit c = true) (hlen : digits.length = 528)
    (s : Stub (Machine β)) : ∀ i < 33, registers (serve env data s).debuggedCore.core i
      = Bytes.toWord (((parseByteStreamStr digits).drop (i * 8)).take 8) := by
  have hne : digits ≠ [] := by
    rintro rfl
    cases hlen
  obtain ⟨htype, hparams⟩ := parsePacket_regWriteAll hdata hdigits hne
  obtain ⟨c', hrun, hregs⟩ := run_setRegisters (by rw [hlen]) s.debuggedCore
  have hcore : (serve env data s).debuggedCore = c' := by
    apply serve_of (P := fun s' : Stub (Machine β) => s'.debuggedCore = c')
    rw [dispatch, htype]
    refine .bind (.modify ?_)
    rw [cmdWriteAllRegister, hparams]
    refine .ite (fun hodd => absurd hlen ?_) fun _ => .ite (fun hodd => absurd hlen ?_) fun _ => ?_
    · exact fun h => hodd (by rw [h]; rfl)
    · exact fun h => hodd (by rw [h])
    refine .bind (onDebuggedCore_ok hrun ?_)
    exact .ite (fun hfb => absurd rfl hfb) fun _ => .pure rfl
  rw [hcore]
  exact hregs

/-- A `G` of another length changes nothing on the core, and one without digits is no packet of
the table. -/
theorem serve_regWriteAll_refused (hdata : cString data = ch 'G' :: digits)
    (hdigits : ∀ c ∈ digits, isHexDigit c = true) (hlen : digits.length ≠ 528)
    (s : Stub (Machine β)) : SameCore s (serve env data s) := by
  by_cases hne : digits = []
  · have htype : (parsePacket data).packetType = .cmdUnknown := by
      rcases packetType_cases data with hu | ⟨r, hr, htype⟩
      · exact hu
      · have hm := (packetType_iff hr).mp htype
        rw [hdata, hne] at hm
        have hrows : ∀ r ∈ packetTypeRegexStr, Regex.matchesWhole r.whole [ch 'G'] = false := by
          decide
        rw [hrows r hr] at hm
        cases hm
    exact serve_unknown htype
  · obtain ⟨htype, hparams⟩ := parsePacket_regWriteAll hdata hdigits hne
    apply serve_of (P := SameCore s)
    rw [dispatch, htype]
    refine .bind (.modify ?_)
    rw [cmdWriteAllRegister, hparams]
    refine .ite (fun _ => packingAndSend_sameCore [] _) fun hmod => ?_
    refine .ite (fun _ => .throw rfl) fun _ => ?_
    have hmod : digits.length % 16 = 0 := not_not.mp hmod
    have hnum : digits.length / 16 ≠ 33 := by omega
    refine .bind (onDebuggedCore_ok (run_setRegisters_refused hnum s.debuggedCore) ?_)
    exact .ite (fun _ => packingAndSend_sameCore _ _) fun _ => .pure rfl

/-! ## Dump and restore -/

/-- What `g` and `G` do on a stub. -/
structure RegistersRoundTrip (env : StubEnv) (s : Stub (Machine β)) : Prop where
  /-- `G` with a reply of `g` leaves the registers as they are. -/
  restore : ∀ ask reply data, cString ask = [ch 'g'] → RepliesWith env ask reply s →
    cString data = ch 'G' :: reply →
      (serve env data (serve env ask s)).debuggedCore.core.core.GPR = s.debuggedCore.core.core.GPR ∧
      (serve env data (serve env ask s)).debuggedCore.core.core.currentProgramCounter
        = s.debuggedCore.core.core.currentProgramCounter
  answered : ∀ ask, cString ask = [ch 'g'] → ∃ reply, RepliesWith env ask reply s
  /-- Sixteen digits for each register, least significant byte first. -/
  write : ∀ digits data, cString data = ch 'G' :: digits → (∀ c ∈ digits, isHexDigit c = true) →
    digits.length = 528 → ∀ i bytes, Spells ((digits.drop (16 * i)).take 16) bytes →
      (0 < i → i < 32 →
        (serve env data s).debuggedCore.core.core.GPR (BitVec.ofNat 5 i) = Bytes.toWord bytes) ∧
      (i = 32 → (serve env data s).debuggedCore.core.core.currentProgramCounter
        = Bytes.toWord bytes)
  refuse : ∀ digits data, cString data = ch 'G' :: digits → (∀ c ∈ digits, isHexDigit c = true) →
    digits.length ≠ 528 → SameCore s (serve env data s)

/-- Registers survive a dump and a restore, and `G` sets what its digits stand for. -/
theorem registers_round_trip (env : StubEnv) (s : Stub (Machine β)) : RegistersRoundTrip env s := by
  refine ⟨fun ask reply data hask hreply hdata => ?_, fun ask hask => ?_,
    fun digits data hdata hdigits hlen i bytes hbytes => ?_,
    fun digits data hdata hdigits hlen => serve_regWriteAll_refused hdata hdigits hlen s⟩
  · obtain ⟨hdump, hsame⟩ := serve_regReadAll env hask s
    obtain rfl := packing_injective (List.cons.inj (List.append_cancel_left
      (hreply.symm.trans hdump))).1
    have hspells := hexBytes_spells (dumpBytes s.debuggedCore.core)
    have hlen := hspells.length_eq
    rw [length_dumpBytes] at hlen
    refine registers_ext fun i hi => ?_
    rw [serve_regWriteAll env hdata hspells.allDigits hlen _ i hi, hspells.parse, reg_of_dump _ hi]
  · exact ⟨_, (serve_regReadAll env hask s).1⟩
  · have hregs := serve_regWriteAll env hdata hdigits hlen s
    rw [← hbytes.register hdigits hlen]
    constructor
    · intro hpos hi
      have hreg := hregs i (by omega)
      rwa [registers, if_pos hi] at hreg
    · rintro rfl
      exact hregs 32 (by decide)

end Registers

end GDBStub

end MEmu
