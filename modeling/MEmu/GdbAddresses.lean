import MEmu.GdbStub

/-!
# The addresses of a debugger

Four commands carry an address as hexadecimal digits.  Their handlers read it with `strtoll`,
which has no value above the greatest signed integer, so an address of the upper half becomes
that one.
-/

namespace MEmu

namespace GDBStub

open Run (Sat Keeps)

variable {a : Word} {data addr digits : List Byte} {env : StubEnv}

/-! ## Digits -/

/-- The digits stand for the address. -/
def Carries (a : Word) (digits : List Byte) : Prop :=
  (∀ c ∈ digits, isHexDigit c = true) ∧ hexValue digits = a.toNat

theorem strtoll_of_digits (h : ∀ c ∈ digits, isHexDigit c = true) :
    (strtoll digits).toNat = min (hexValue digits) (2 ^ 63 - 1) := by
  have hall : digits.takeWhile isHexDigit = digits := List.takeWhile_eq_self_iff.mpr h
  rw [strtoll, hall, BitVec.toNat_ofNat]
  exact Nat.mod_eq_of_lt (by omega)

theorem strtoll_of_lt (h : ∀ c ∈ digits, isHexDigit c = true) (hlt : hexValue digits < 2 ^ 63) :
    (strtoll digits).toNat = hexValue digits := by
  rw [strtoll_of_digits h]
  omega

/-- The conversion is exact below the sign bit, and nowhere else. -/
theorem strtoll_eq_iff (h : Carries a digits) : strtoll digits = a ↔ a.toNat < 2 ^ 63 := by
  rw [← BitVec.toNat_inj, strtoll_of_digits h.1, h.2]
  omega

/-! ## What the commands are to do -/

/-- A command that carries an address, with its other fields. -/
inductive AddrCmd where
  | memRead (len : List Byte)
  | memWrite (len bytes : List Byte)
  | insertBreakpoint (type kind : List Byte)
  | removeBreakpoint (type kind : List Byte)

namespace AddrCmd

/-- The characters of the command, each before a field. -/
def seps : AddrCmd → List Char
  | memRead _ => ['m', ',']
  | memWrite _ _ => ['M', ',', ':']
  | insertBreakpoint _ _ => ['Z', ',', ',']
  | removeBreakpoint _ _ => ['z', ',', ',']

/-- The fields, with these digits for the address. -/
def fields (r : AddrCmd) (addr : List Byte) : List (List Byte) :=
  match r with
  | memRead len => [addr, len]
  | memWrite len bytes => [addr, len, bytes]
  | insertBreakpoint type kind | removeBreakpoint type kind => [type, addr, kind]

/-- The other fields are as they should be: the stack has room for what is read, what is written
has the length that is said, and the type is that of a breakpoint. -/
def Valid (env : StubEnv) : AddrCmd → Prop
  | memRead len => hexValue len ≤ env.stackLimit.toNat
  | memWrite len bytes => 2 * hexValue len = bytes.length ∧ hexValue len < 2 ^ 63
  | insertBreakpoint type _ | removeBreakpoint type _ => hexValue type = 0 ∨ hexValue type = 1

variable {γ : Type} [ProcessorCoreI γ]

/-- The command at an address. -/
def performAt (env : StubEnv) (r : AddrCmd) (a : Word) : StubM γ Unit :=
  match r with
  | memRead len => do
      let n := hexValue len
      let (feedback, data) ← onDebuggedCore (ProcessorCore.onCore
        (ProcessorCoreI.memRead a (BitVec.ofNat 64 n) (List.replicate n env.indeterminate)))
      if feedback = .ok then packingAndSend (data.flatMap hexByte)
      else sendError
  | memWrite len bytes => do
      let feedback ← onDebuggedCore (ProcessorCore.onCore
        (ProcessorCoreI.memWrite a (BitVec.ofNat 64 (hexValue len)) (parseByteStreamStr bytes)))
      if feedback ≠ .ok then sendError
  | insertBreakpoint _ _ => do
      modify fun s => { s with debuggedCore := s.debuggedCore.insertWatchPoint a }
      sendOK
  | removeBreakpoint _ _ => do
      modify fun s => { s with debuggedCore := s.debuggedCore.removeWatchPoint a }
      sendOK

end AddrCmd

/-- On every core the stub serves the packet by the command at this address. -/
def ServesAt (env : StubEnv) (r : AddrCmd) (a : Word) (data : List Byte) : Prop :=
  ∀ (γ : Type) [ProcessorCoreI γ],
    (dispatch env (parsePacket data) : StubM γ Unit) = (do
      sendACK
      r.performAt env a)

/-! ## What the handlers do -/

section Handlers

variable {γ : Type} [ProcessorCoreI γ]

theorem strtoll_eq_ofNat (h : IsHexField digits) (hlt : hexValue digits < 2 ^ 63) :
    strtoll digits = BitVec.ofNat 64 (hexValue digits) := by
  apply BitVec.eq_of_toNat_eq
  rw [strtoll_of_lt h.digits hlt, BitVec.toNat_ofNat]
  exact (Nat.mod_eq_of_lt (by omega)).symm

theorem cmdMemRead_eq {p : GdbRspPacket} {len : List Byte} (hp : p.paramList = [addr, len])
    (hlen : IsHexField len) (hroom : hexValue len ≤ env.stackLimit.toNat) :
    (cmdMemRead env p : StubM γ Unit) = (AddrCmd.memRead len).performAt env (strtoll addr) := by
  have hlt : hexValue len < 2 ^ 63 := by omega
  have hn : (strtoll len).toNat = hexValue len := strtoll_of_lt hlen.digits hlt
  rw [cmdMemRead, hp, AddrCmd.performAt]
  dsimp only
  rw [hn, strtoll_eq_ofNat hlen hlt, if_neg (Nat.not_lt.mpr hroom)]

theorem cmdMemWrite_eq (env : StubEnv) {p : GdbRspPacket} {len bytes : List Byte}
    (hp : p.paramList = [addr, len, bytes]) (hlen : IsHexField len)
    (hbytes : 2 * hexValue len = bytes.length) (hlt : hexValue len < 2 ^ 63) :
    (cmdMemWrite p : StubM γ Unit)
      = (AddrCmd.memWrite len bytes).performAt env (strtoll addr) := by
  have htwice : 2 * strtoll len = BitVec.ofNat 64 bytes.length := by
    apply BitVec.eq_of_toNat_eq
    rw [BitVec.toNat_mul, BitVec.toNat_ofNat, strtoll_of_lt hlen.digits hlt, ← hbytes]
    rfl
  have heven : bytes.length % 2 = 0 := by omega
  rw [cmdMemWrite, hp, AddrCmd.performAt]
  dsimp only
  rw [if_neg (not_not_intro htwice), if_neg (not_not_intro heven), strtoll_eq_ofNat hlen hlt]

omit [ProcessorCoreI γ] in
theorem cmdBreakpoint_eq (change : Word → ProcessorCore γ → ProcessorCore γ) {p : GdbRspPacket}
    {type kind : List Byte} (hp : p.paramList = [type, addr, kind]) (htype : IsHexField type)
    (hvalid : hexValue type = 0 ∨ hexValue type = 1) :
    cmdBreakpoint change p = (do
      modify fun s => { s with debuggedCore := change (strtoll addr) s.debuggedCore }
      sendOK) := by
  have hlt : hexValue type < 2 ^ 63 := by omega
  have hok : ¬((strtoll type).setWidth 32 ≠ 0 ∧ (strtoll type).setWidth 32 ≠ 1) := by
    rw [strtoll_eq_ofNat htype hlt]
    rcases hvalid with h | h
    · rw [h]
      exact fun hne => hne.1 rfl
    · rw [h]
      exact fun hne => hne.2 rfl
  rw [cmdBreakpoint, hp]
  dsimp only
  rw [if_neg hok]

/-- The handlers act at the address that `strtoll` reads. -/
theorem dispatch_addrCmd {r : AddrCmd} (hvalid : r.Valid env)
    (hdata : HasFields r.seps (r.fields addr) data) :
    (dispatch env (parsePacket data) : StubM γ Unit) = (do
      sendACK
      r.performAt env (strtoll addr)) := by
  have hfield := hdata.fields
  cases r with
  | memRead len =>
      obtain ⟨htype, hparams⟩ := (hasFields_iff (r := .cmdMemRead) (by simp [packetTypeRegexStr])
        rfl rfl (not_hexDigit rfl)).mp hdata
      have hcmd := cmdMemRead_eq (γ := γ) hparams (hfield len (by simp [AddrCmd.fields])) hvalid
      simp only [dispatch, htype, PacketRegex.cmdMemRead, hcmd]
  | memWrite len bytes =>
      obtain ⟨htype, hparams⟩ := (hasFields_iff (r := .cmdMemWrite) (by simp [packetTypeRegexStr])
        rfl rfl (not_hexDigit rfl)).mp hdata
      have hcmd := cmdMemWrite_eq (γ := γ) env hparams
        (hfield len (by simp [AddrCmd.fields])) hvalid.1 hvalid.2
      simp only [dispatch, htype, PacketRegex.cmdMemWrite, hcmd]
  | insertBreakpoint type kind =>
      obtain ⟨htype, hparams⟩ := (hasFields_iff (r := .cmdInsertBreakpoint)
        (by simp [packetTypeRegexStr]) rfl rfl (not_hexDigit rfl)).mp hdata
      have hcmd := cmdBreakpoint_eq (γ := γ) ProcessorCore.insertWatchPoint hparams
        (hfield type (by simp [AddrCmd.fields])) hvalid
      simp only [dispatch, htype, PacketRegex.cmdInsertBreakpoint, cmdInsertBreakpoint, hcmd,
        AddrCmd.performAt]
  | removeBreakpoint type kind =>
      obtain ⟨htype, hparams⟩ := (hasFields_iff (r := .cmdRemoveBreakpoint)
        (by simp [packetTypeRegexStr]) rfl rfl (not_hexDigit rfl)).mp hdata
      have hcmd := cmdBreakpoint_eq (γ := γ) ProcessorCore.removeWatchPoint hparams
        (hfield type (by simp [AddrCmd.fields])) hvalid
      simp only [dispatch, htype, PacketRegex.cmdRemoveBreakpoint, cmdRemoveBreakpoint, hcmd,
        AddrCmd.performAt]

end Handlers

/-! ## A core that tells addresses apart -/

/-- A core that keeps a record of the addresses of its memory accesses. -/
structure RecordingCore where
  accesses : List Word

namespace RecordingCore

/-- An access of memory. -/
def record (addr : Word) : EStateM Abort RecordingCore Unit :=
  modify fun c => { c with accesses := c.accesses ++ [addr] }

instance : ProcessorCoreI RecordingCore where
  dumpRegister _ := []
  dumpProgramCounter _ := 0
  step := pure .ok
  memRead start_addr _ buffer := do
    record start_addr
    pure (.ok, buffer)
  memWrite start_addr _ _ := do
    record start_addr
    pure .ok
  writeAllRegister _ := pure .ok

end RecordingCore

/-- What a command at an address leaves on the core. -/
def AddrCmd.leaves (r : AddrCmd) (a : Word) (c : ProcessorCore RecordingCore) :
    ProcessorCore RecordingCore :=
  match r with
  | memRead _ | memWrite _ _ => { c with core := ⟨c.core.accesses ++ [a]⟩ }
  | insertBreakpoint _ _ => c.insertWatchPoint a
  | removeBreakpoint _ _ => c.removeWatchPoint a

/-- The core is left alone. -/
def SameCore {γ : Type} (s s' : Stub γ) : Prop := s'.debuggedCore = s.debuggedCore

instance {γ : Type} : IsPreorder (Stub γ) SameCore where
  refl _ := rfl
  trans _ _ _ h h' := h'.trans h

theorem emit_sameCore {γ : Type} (e : StubEvent) : Keeps SameCore (emit e : StubM γ Unit) :=
  fun _ => .modify rfl

theorem readByte_sameCore {γ : Type} : Keeps SameCore (readByte : StubM γ (Option Byte)) := by
  refine fun s => (readByte_sat s).mono (fun _ s' h => ?_) fun _ _ h => ?_
  · rcases h with rfl | ⟨_, _, -, rfl⟩ <;> rfl
  · rw [h.2]
    rfl

theorem packingAndSend_sameCore {γ : Type} (reply : List Byte) :
    Keeps SameCore (packingAndSend reply : StubM γ Unit) :=
  packingAndSend_keeps readByte_sameCore (fun _ => emit_sameCore _) (fun _ => emit_sameCore _) _

theorem performAt_leaves (r : AddrCmd) (a : Word) (s : Stub RecordingCore) :
    Sat s (r.performAt env a) (fun _ s' => s'.debuggedCore = r.leaves a s.debuggedCore)
      (fun _ s' => s'.debuggedCore = r.leaves a s.debuggedCore) := by
  cases r with
  | memRead len =>
      refine .bind (onDebuggedCore_ok rfl ?_)
      exact .ite (fun _ => packingAndSend_sameCore _ _) fun _ => packingAndSend_sameCore _ _
  | memWrite len bytes =>
      refine .bind (onDebuggedCore_ok rfl ?_)
      exact .ite (fun _ => packingAndSend_sameCore _ _) fun _ => .pure rfl
  | insertBreakpoint type kind => exact .bind (.modify (packingAndSend_sameCore _ _))
  | removeBreakpoint type kind => exact .bind (.modify (packingAndSend_sameCore _ _))

/-- What a command leaves tells its address. -/
theorem AddrCmd.leaves_injective {r : AddrCmd} {a b : Word}
    (h : ∀ c, r.leaves a c = r.leaves b c) : a = b := by
  cases r with
  | memRead len =>
      have hlog := congrArg (fun c => c.core.accesses) (h ⟨⟨[]⟩, ∅⟩)
      exact (List.cons.inj hlog).1
  | memWrite len bytes =>
      have hlog := congrArg (fun c => c.core.accesses) (h ⟨⟨[]⟩, ∅⟩)
      exact (List.cons.inj hlog).1
  | insertBreakpoint type kind =>
      have hset : insert a ∅ = insert b ∅ :=
        congrArg ProcessorCore.watchPointPCs (h ⟨⟨[]⟩, ∅⟩)
      have hmem := Finset.mem_insert_self a ∅
      rw [hset] at hmem
      simpa using hmem
  | removeBreakpoint type kind =>
      have hset : ({a} : Finset Word).erase a = ({a} : Finset Word).erase b :=
        congrArg ProcessorCore.watchPointPCs (h ⟨⟨[]⟩, {a}⟩)
      by_contra hne
      have hmem := Finset.mem_erase_of_ne_of_mem hne (Finset.mem_singleton_self a)
      rw [← hset] at hmem
      exact Finset.notMem_erase a _ hmem

/-! ## Addresses on the wire -/

/-- The address at which the stub serves a packet is the one that `strtoll` reads. -/
theorem servesAt_iff_strtoll {r : AddrCmd} (hvalid : r.Valid env)
    (hdata : HasFields r.seps (r.fields addr) data) :
    ServesAt env r a data ↔ strtoll addr = a := by
  constructor
  · intro h
    have hsame := (dispatch_addrCmd hvalid hdata).symm.trans (h RecordingCore)
    refine AddrCmd.leaves_injective (r := r) fun c => ?_
    let s : Stub RecordingCore := ⟨[], 0, 0, c, 0, 0, [], [], false, []⟩
    have hrun (b : Word) : (Run.final ((do
        sendACK
        r.performAt env b : StubM RecordingCore Unit).run s)).debuggedCore = r.leaves b c := by
      refine Sat.final (P := fun s' : Stub RecordingCore => s'.debuggedCore = r.leaves b c) ?_
      exact .bind (.modify (performAt_leaves r b _))
    rw [← hrun, ← hrun, hsame]
  · rintro rfl γ _
    exact dispatch_addrCmd hvalid hdata

/-- An address reaches the core as it was sent exactly where it is below the sign bit. -/
theorem servesAt_iff {r : AddrCmd} (hvalid : r.Valid env) (haddr : Carries a addr)
    (hdata : HasFields r.seps (r.fields addr) data) :
    ServesAt env r a data ↔ a.toNat < 2 ^ 63 :=
  (servesAt_iff_strtoll hvalid hdata).trans (strtoll_eq_iff haddr)

/-- The packet that inserts a breakpoint at an address. -/
def breakpointAt (addr : List Byte) : List Byte :=
  fieldsText ['Z', ',', ','] [str ['0'], addr, str ['4']]

/-- The address of the reset vector. -/
def resetVector : List Byte := str ['8', '0', '0', '0', '0', '0', '0', '0']

/-- An address of a kernel. -/
def kernelAddr : List Byte :=
  str ['f', 'f', 'f', 'f', 'f', 'f', 'f', 'f', '8', '0', '0', '0', '0', '0', '0', '0']

theorem hasFields_breakpointAt (addr : List Byte)
    (htype : (parsePacket (breakpointAt addr)).packetType = .cmdInsertBreakpoint)
    (hparams : (parsePacket (breakpointAt addr)).paramList = [str ['0'], addr, str ['4']]) :
    HasFields ['Z', ',', ','] [str ['0'], addr, str ['4']] (breakpointAt addr) :=
  (hasFields_iff (r := .cmdInsertBreakpoint) (by simp [packetTypeRegexStr]) rfl rfl
    (not_hexDigit rfl)).mpr ⟨htype, hparams⟩

theorem servesAt_iff_low :
    ServesAt ⟨true, 0, 0, 0, 0⟩ (.insertBreakpoint (str ['0']) (str ['4'])) 0x80000000
        (breakpointAt resetVector) ↔
      (0x80000000 : Word).toNat < 2 ^ 63 :=
  servesAt_iff (.inl (by decide)) ⟨by decide, by decide⟩
    (hasFields_breakpointAt resetVector (by decide) (by decide))

/-- A breakpoint in the upper half is put elsewhere. -/
theorem upper_half_saturates : ¬∀ (env : StubEnv) (r : AddrCmd) (a : Word) (addr data : List Byte),
    r.Valid env → Carries a addr → HasFields r.seps (r.fields addr) data →
      ServesAt env r a data := by
  intro h
  have hvalid : (AddrCmd.insertBreakpoint (str ['0']) (str ['4'])).Valid ⟨true, 0, 0, 0, 0⟩ :=
    .inl (by decide)
  have hdata := hasFields_breakpointAt kernelAddr (by decide) (by decide)
  have hserves := h _ _ 0xffffffff80000000 _ _ hvalid ⟨by decide, by decide⟩ hdata
  exact absurd ((servesAt_iff_strtoll hvalid hdata).mp hserves) (by decide)

end GDBStub

end MEmu
