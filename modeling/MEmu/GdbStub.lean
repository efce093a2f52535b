import MEmu.CoreDebug
import MEmu.GdbPackets
import MEmu.Lib.Pieces
import MEmu.Lib.Run

/-!
# The GDB stub

`GDBStub`: the packets it receives, the commands it serves and the replies it sends.

What the client sends arrives in pieces.  A `FILE` that runs out of bytes takes the next piece
whole, while `read` takes one byte of it and leaves the rest on the descriptor.  `recvAndCheck`
opens a `FILE` for each packet, and what an earlier one still held is out of reach.

A computation ends early where the process does, and where it waits for bytes that have not come.
`log` is a record kept for the theorems, one entry for each thing the stub did.
-/

namespace MEmu

/-! ## The connection -/

/-- Bytes that arrive together. -/
abbrev Arrival := Pieces.Piece Byte

/-- What the stub did. -/
inductive StubEvent where
  /-- `recvAndCheck` returned, and was given these bytes. -/
  | checked (frame : List Byte) (outcome : FuncReturnFeedback)
  | ack
  | nak
  /-- `recvPacket` returned. -/
  | received (feedback : FuncReturnFeedback)
  /-- A reply was written. -/
  | sent (frame : List Byte)
  /-- The reply was written again. -/
  | resent (frame : List Byte)
  /-- `read` was given a byte. -/
  | ackRead (b : Byte)
deriving DecidableEq

/-- How the stub ends, or where it is where it has not ended. -/
inductive StubEnd where
  /-- It waits for bytes. -/
  | blocked
  /-- `cmd_Continue` still steps the core. -/
  | running
  /-- `exit(EXIT_FAILURE)`. -/
  | acceptError
  | packetTooLong
  | tooManyRetries
  | receiveError
  /-- The `assert(0)` of `Debug_GDBStub`. -/
  | unreachable
  /-- `ParseByteStreamStr`: `assert(len % 2 == 0)`. -/
  | oddStream
  /-- The stack has no room for the buffers of `cmd_MemRead`. -/
  | stackOverflow
  /-- The core ends the process. -/
  | core (e : Abort)
deriving DecidableEq

/-- What is fixed while the stub runs. -/
structure StubEnv where
  /-- The check sum is validated, which it is unless `CONFIG_DEBUG_ENABLE` is set. -/
  validate : Bool
  /-- What an uninitialised local variable holds. -/
  indeterminate : Byte
  /-- The longest memory that the stack has room to read, which an `int` can index. -/
  stackLimit : BitVec 31
  /-- How many steps `cmd_Continue` is followed for. -/
  fuel : Nat
  /-- What `accept` returns. -/
  accepted : Int

/-- `GDBStub`, its connection and the core. -/
structure Stub (γ : Type) where
  /-- The part of `buffer` that the last `recvAndCheck` wrote. -/
  buffer : List Byte
  packetBeginIndex : Int
  packetSize : Nat
  debuggedCore : ProcessorCore γ
  recvFD : Int
  sendFD : Int
  /-- The buffer of the `FILE`. -/
  fileBuf : List Byte
  /-- What is on the descriptor, or is yet to arrive. -/
  arrivals : List Arrival
  /-- The client closes the connection after it. -/
  closed : Bool
  log : List StubEvent

/-- A computation of the stub. -/
abbrev StubM (γ : Type) := EStateM StubEnd (Stub γ)

namespace GDBStub

abbrev BUFFER_SIZE : Nat := 1024

section Transport

variable {γ : Type}

/-- The packet that `recvAndCheck` saved. -/
def packet (s : Stub γ) : List Byte := (s.buffer.drop s.packetBeginIndex.toNat).take s.packetSize

def emit (e : StubEvent) : StubM γ Unit := modify fun s => { s with log := s.log ++ [e] }

/-- `getc`, where the end of the file is `none`. -/
def getc : StubM γ (Option Byte) := do
  let s ← get
  match s.fileBuf, s.arrivals with
  | b :: fileBuf, _ =>
      set { s with fileBuf := fileBuf }
      pure (some b)
  | [], a :: arrivals =>
      set { s with fileBuf := a.others, arrivals := arrivals }
      pure (some a.first)
  | [], [] => if s.closed then pure none else throw .blocked

/-- `EOF` as a `char`. -/
def asChar (c : Option Byte) : Byte := c.getD 0xff

/-- `read` of one byte, straight from the descriptor. -/
def readByte : StubM γ (Option Byte) := do
  let s ← get
  match s.arrivals with
  | a :: arrivals =>
      set { s with arrivals := a.pop ++ arrivals }
      emit (.ackRead a.first)
      pure (some a.first)
  | [] => if s.closed then pure none else throw .blocked

/-- The first connection is accepted. -/
def acceptClient (env : StubEnv) : StubM γ Unit := do
  if (← get).recvFD = -1 then
    modify fun s => { s with recvFD := env.accepted, sendFD := env.accepted }
  if (← get).recvFD = -1 then throw .acceptError

/-- `fdopen`. -/
def openFile : StubM γ Unit := modify fun s => { s with fileBuf := [], buffer := [] }

/-- The loop of `recvAndCheck` over the `n` places left in `buffer`, with `packet_begin_index` so far:
this and `packet_size` where the packet finishes. -/
def readPacket : Nat → Int → StubM γ (Option (Int × Nat))
  | 0, _ => pure none
  | n + 1, packet_begin_index => do
      let c := asChar (← getc)
      let i := (← get).buffer.length
      modify fun s => { s with buffer := s.buffer ++ [c] }
      let packet_begin_index := if c = packetBeginChar then (i : Int) + 1 else packet_begin_index
      if c = packetEndChar then
        pure (some (packet_begin_index, ((i : Int) - packet_begin_index).toNat))
      else readPacket n packet_begin_index

/-- `sscanf(chk_sum_str, "%02x", &chk_sum_recv)`, or `none` where it assigns nothing. -/
def scanCheckSum (c₀ c₁ : Byte) : Option Byte :=
  if isHexDigit c₀ && isHexDigit c₁ then some (BitVec.ofNat 8 (hexValue [c₀, c₁]))
  else if isHexDigit c₀ then
    -- a prefix that no digit follows is no number
    if c₀ == ch '0' && (c₁ == ch 'x' || c₁ == ch 'X') then none
    else some (BitVec.ofNat 8 (hexDigit c₀))
  else if isHexDigit c₁ then
    if c₀ == ch ' ' || inChars '\t' '\r' c₀ || c₀ == ch '+' then some (BitVec.ofNat 8 (hexDigit c₁))
    else if c₀ == ch '-' then some (-BitVec.ofNat 8 (hexDigit c₁))
    else none
  else none

/-- The check of `recvAndCheck`. -/
def checkPacket (env : StubEnv) (packet_begin_index : Int) (packet_size : Nat) (c₀ c₁ : Byte) :
    StubM γ FuncReturnFeedback := do
  let chk_sum_recv := (scanCheckSum c₀ c₁).getD env.indeterminate
  if packet_begin_index = -1 then pure .protocolErr
  else
    let data := ((← get).buffer.drop packet_begin_index.toNat).take packet_size
    if env.validate && chk_sum_recv != calCheckSum data then pure .chksumErr
    else
      modify fun s => { s with
        packetBeginIndex := packet_begin_index
        packetSize := packet_size }
      pure .ok

/-- `recvAndCheck`. -/
def recvAndCheck (env : StubEnv) : StubM γ FuncReturnFeedback := do
  acceptClient env
  openFile
  match ← readPacket BUFFER_SIZE (-1) with
  | none => throw .packetTooLong
  | some (packet_begin_index, packet_size) =>
      let c₀ ← getc
      let c₁ ← getc
      let feedback ← checkPacket env packet_begin_index packet_size (asChar c₀) (asChar c₁)
      emit (.checked ((← get).buffer ++ c₀.toList ++ c₁.toList) feedback)
      pure feedback

/-- `sendACK`. -/
def sendACK : StubM γ Unit := emit .ack

/-- `sendNAK`. -/
def sendNAK : StubM γ Unit := emit .nak

/-- A loop of `recvPacket`, which tries again for as long as the feedback is `err`, where `left`
tries are left. -/
def retry (env : StubEnv) (err : FuncReturnFeedback) :
    Nat → FuncReturnFeedback → StubM γ (Nat × FuncReturnFeedback)
  | left, feedback =>
      if feedback = err then
        match left with
        | 0 => throw .tooManyRetries
        | left + 1 => do
            sendNAK
            let feedback ← recvAndCheck env
            retry env err left feedback
      else pure (left, feedback)

/-- `recvPacket`.  The two loops share the counter. -/
def recvPacket (env : StubEnv) : StubM γ FuncReturnFeedback := do
  let feedback ← recvAndCheck env
  let (left, feedback) ← retry env .chksumErr 10 feedback
  let (_, feedback) ← retry env .protocolErr left feedback
  sendACK
  emit (.received feedback)
  pure feedback

/-- A packet around the data. -/
def packing (data : List Byte) : List Byte :=
  [packetBeginChar] ++ data ++ [packetEndChar] ++ hexByte (calCheckSum data)

/-- The loop of `packingAndSend`, where `left` tries are left. -/
def resend (buffer_to_send : List Byte) : Nat → Byte → StubM γ Unit
  | 0, _ => pure ()
  | left + 1, ack =>
      if ack = ch '+' then pure ()
      else do
        emit (.resent buffer_to_send)
        let read ← readByte
        resend buffer_to_send left (read.getD ack)

/-- `packingAndSend`. -/
def packingAndSend (data : List Byte) : StubM γ Unit := do
  emit (.sent (packing data))
  let read ← readByte
  resend (packing data) 10 (read.getD (ch '-'))

/-- A function of the core. -/
def onDebuggedCore {α : Type} (x : EStateM Abort (ProcessorCore γ) α) : StubM γ α := fun s =>
  match x.run s.debuggedCore with
  | .ok a c => .ok a { s with debuggedCore := c }
  | .error e c => .error (.core e) { s with debuggedCore := c }

theorem run_onDebuggedCore {α : Type} (x : EStateM Abort (ProcessorCore γ) α) (s : Stub γ) :
    (onDebuggedCore x).run s = match x.run s.debuggedCore with
      | .ok a c => .ok a { s with debuggedCore := c }
      | .error e c => .error (.core e) { s with debuggedCore := c } := rfl

end Transport

/-! ## The commands -/

section Commands

variable {γ : Type} [ProcessorCoreI γ]

/-- The reply to a packet that is not supported. -/
def sendEmpty : StubM γ Unit := packingAndSend []

/-- The reply to a packet that failed. -/
def sendError : StubM γ Unit := packingAndSend (str ['E', '0', '1'])

def sendOK : StubM γ Unit := packingAndSend (str ['O', 'K'])

/-- A register in little-endian mode. -/
def dumpItem (reg : RegisterItem) : List Byte :=
  (Bytes.ofWord reg.size.toNat reg.val).flatMap hexByte

/-- `cmd_ReadAllRegister`. -/
def cmdReadAllRegister : StubM γ Unit := do
  let regs := ProcessorCoreI.dumpRegister (← get).debuggedCore.core
  packingAndSend (regs.flatMap dumpItem)

/-- The registers in a byte stream. -/
def regsOfStream (reg_num reg_size : Nat) (data : List Byte) : List RegisterItem :=
  (List.range reg_num).map fun i =>
    { reg_id := BitVec.ofNat 16 i
      size := BitVec.ofNat 8 reg_size
      val := Bytes.toWord ((data.drop (i * reg_size)).take reg_size) }

/-- `cmd_WriteAllRegister`. -/
def cmdWriteAllRegister (packet : GdbRspPacket) : StubM γ Unit := do
  match packet.paramList with
  | [all_reg_str] =>
      let reg_str_len := ProcessorCore.isaBitLen / 4
      if all_reg_str.length % reg_str_len ≠ 0 then sendEmpty
      else
        let reg_num := all_reg_str.length / reg_str_len
        if all_reg_str.length % 2 ≠ 0 then throw .oddStream
        let regs := regsOfStream reg_num (ProcessorCore.isaBitLen / 8) (parseByteStreamStr all_reg_str)
        let feedback ← onDebuggedCore (ProcessorCore.onCore (ProcessorCoreI.writeAllRegister regs))
        if feedback ≠ .ok then sendError
  | _ => sendEmpty

/-- `cmd_GetHaltReason`. -/
def cmdGetHaltReason : StubM γ Unit := packingAndSend (str ['S', '0', '5'])

/-- The features of a `qSupported` that the stub has. -/
def supportedFeatures (paramList : List (List Byte)) : List Byte :=
  paramList.flatMap fun s =>
    if s = str ['h', 'w', 'b', 'r', 'e', 'a', 'k'] then
      str ['h', 'w', 'b', 'r', 'e', 'a', 'k', '+']
    else []

/-- `cmd_QSupported`. -/
def cmdQSupported (packet : GdbRspPacket) : StubM γ Unit :=
  packingAndSend (supportedFeatures packet.paramList)

/-- `cmd_Unknown`. -/
def cmdUnknown : StubM γ Unit := sendEmpty

/-- `cmd_MemRead`. -/
def cmdMemRead (env : StubEnv) (packet : GdbRspPacket) : StubM γ Unit := do
  match packet.paramList with
  | [addr_str, len_str] =>
      let addr := strtoll addr_str
      let len := strtoll len_str
      if env.stackLimit.toNat < len.toNat then throw .stackOverflow
      let data := List.replicate len.toNat env.indeterminate
      let (feedback, data) ←
        onDebuggedCore (ProcessorCore.onCore (ProcessorCoreI.memRead addr len data))
      if feedback = .ok then packingAndSend (data.flatMap hexByte)
      else sendError
  | _ => sendEmpty

/-- `cmd_MemWrite`. -/
def cmdMemWrite (packet : GdbRspPacket) : StubM γ Unit := do
  match packet.paramList with
  | [addr_str, len_str, data_str] =>
      let addr := strtoll addr_str
      let len := strtoll len_str
      if 2 * len ≠ BitVec.ofNat 64 data_str.length then sendEmpty
      else
        if data_str.length % 2 ≠ 0 then throw .oddStream
        let data := parseByteStreamStr data_str
        let feedback ← onDebuggedCore (ProcessorCore.onCore (ProcessorCoreI.memWrite addr len data))
        if feedback ≠ .ok then sendError
  | _ => sendEmpty

/-- What `cmd_InsertBreakpoint` and `cmd_RemoveBreakpoint` share: they differ in what they do to the
watch points of the core. -/
def cmdBreakpoint (change : Word → ProcessorCore γ → ProcessorCore γ) (packet : GdbRspPacket) :
    StubM γ Unit := do
  match packet.paramList with
  | [type_str, addr_str, _kind] =>
      let watchpoint_type := (strtoll type_str).setWidth 32
      if watchpoint_type ≠ 0 ∧ watchpoint_type ≠ 1 then sendEmpty
      else
        modify fun s => { s with debuggedCore := change (strtoll addr_str) s.debuggedCore }
        sendOK
  | _ => sendEmpty

/-- `cmd_InsertBreakpoint`. -/
def cmdInsertBreakpoint (packet : GdbRspPacket) : StubM γ Unit :=
  cmdBreakpoint ProcessorCore.insertWatchPoint packet

/-- `cmd_RemoveBreakpoint`. -/
def cmdRemoveBreakpoint (packet : GdbRspPacket) : StubM γ Unit :=
  cmdBreakpoint ProcessorCore.removeWatchPoint packet

/-- The loop of `cmd_Continue`, for up to `n` turns: whether the core stopped. -/
def runToWatchPoint : Nat → EStateM Abort (ProcessorCore γ) Bool
  | 0 => pure false
  | n + 1 => do
      if (← get).isCurrentPCAtWatchPoint then pure true
      else
        let _ ← ProcessorCore.onCore ProcessorCoreI.step
        runToWatchPoint n

/-- `cmd_Continue`. -/
def cmdContinue (env : StubEnv) (packet : GdbRspPacket) : StubM γ Unit := do
  if packet.paramList.length ≠ 0 then sendEmpty
  else
    let stopped ← onDebuggedCore (runToWatchPoint env.fuel)
    if stopped then packingAndSend (str ['S', '0', '5'])
    else throw .running

/-! ## The loop -/

/-- The switch of `Debug_GDBStub`. -/
def dispatch (env : StubEnv) (parsed_packet : GdbRspPacket) : StubM γ Unit := do
  match parsed_packet.packetType with
  | .cmdQueryHaltReason =>
      sendACK
      cmdGetHaltReason
  | .cmdRegReadAll =>
      sendACK
      cmdReadAllRegister
  | .cmdRegWriteAll =>
      sendACK
      cmdWriteAllRegister parsed_packet
  | .cmdQSupported =>
      sendACK
      cmdQSupported parsed_packet
  | .cmdMemRead =>
      sendACK
      cmdMemRead env parsed_packet
  | .cmdMemWrite =>
      sendACK
      cmdMemWrite parsed_packet
  | .cmdInsertBreakpoint =>
      sendACK
      cmdInsertBreakpoint parsed_packet
  | .cmdRemoveBreakpoint =>
      sendACK
      cmdRemoveBreakpoint parsed_packet
  | .cmdContinue =>
      sendACK
      cmdContinue env parsed_packet
  | .emptyPacket => sendACK
  | .cmdUnknown =>
      sendACK
      cmdUnknown
  | _ => throw .unreachable

/-- A turn of the loop of `Debug_GDBStub`. -/
def turn (env : StubEnv) : StubM γ Unit := do
  let recv_packet_feedback ← recvPacket env
  if recv_packet_feedback ≠ .ok then throw .receiveError
  dispatch env (parsePacket (packet (← get)))

/-- `Debug_GDBStub`, for `n` turns of its loop. -/
def debug (env : StubEnv) : Nat → StubM γ Unit
  | 0 => pure ()
  | n + 1 => do
      turn env
      debug env n

end Commands

/-! ## What a command can do -/

section Frame

open Run (Sat Keeps)

variable {γ : Type} {s s' : Stub γ}

/-- A byte is read, or there is none any more, or it is waited for. -/
theorem readByte_sat (s : Stub γ) : Sat s readByte
    (fun _ s' => s' = s ∨ ∃ a arrivals, s.arrivals = a :: arrivals ∧
      s' = { s with arrivals := a.pop ++ arrivals, log := s.log ++ [.ackRead a.first] })
    (fun e s' => e = .blocked ∧ s' = s) := by
  refine .bind (.get ?_)
  split
  · rename_i a arrivals harr
    exact .bind (.set (.bind (.modify (.pure (.inr ⟨a, arrivals, harr, rfl⟩)))))
  · exact .ite (fun _ => .pure (.inl rfl)) fun _ => .throw ⟨rfl, rfl⟩

/-- The log grows by events in `P`. -/
def Grows (P : StubEvent → Prop) (s s' : Stub γ) : Prop :=
  ∃ events, s'.log = s.log ++ events ∧ ∀ e ∈ events, P e

section Grows

variable {P : StubEvent → Prop}

theorem Grows.refl (s : Stub γ) : Grows P s s := ⟨[], (List.append_nil _).symm, nofun⟩

theorem Grows.trans {s'' : Stub γ} (h : Grows P s s') (h' : Grows P s' s'') : Grows P s s'' := by
  obtain ⟨l, hl, hall⟩ := h
  obtain ⟨l', hl', hall'⟩ := h'
  refine ⟨l ++ l', by rw [hl', hl, List.append_assoc], fun e he => ?_⟩
  rcases List.mem_append.mp he with he | he
  · exact hall e he
  · exact hall' e he

instance : IsPreorder (Stub γ) (Grows P) where
  refl := Grows.refl
  trans _ _ _ := Grows.trans

theorem emit_grows {e : StubEvent} (he : P e) : Keeps (Grows P) (emit e : StubM γ Unit) :=
  fun _ => .modify ⟨[e], rfl, fun _ h => List.mem_singleton.mp h ▸ he⟩

theorem readByte_grows (hread : ∀ b, P (.ackRead b)) :
    Keeps (Grows P) (readByte : StubM γ (Option Byte)) := by
  refine fun s => (readByte_sat s).mono (fun _ s' h => ?_) fun e s' h => ?_
  · rcases h with rfl | ⟨a, arrivals, -, rfl⟩
    · exact .refl s'
    · exact ⟨[.ackRead a.first], rfl, List.forall_mem_singleton.mpr (hread _)⟩
  · rw [h.2]
    exact .refl s

end Grows

theorem onDebuggedCore_sat {α : Type} {x : EStateM Abort (ProcessorCore γ) α}
    {Q : α → Stub γ → Prop} {E : StubEnd → Stub γ → Prop}
    (hok : ∀ a c, x.run s.debuggedCore = .ok a c → Q a { s with debuggedCore := c })
    (herr : ∀ e c, x.run s.debuggedCore = .error e c → E (.core e) { s with debuggedCore := c }) :
    Sat s (onDebuggedCore x) Q E := by
  unfold Sat
  rw [run_onDebuggedCore]
  cases hr : x.run s.debuggedCore with
  | ok a c => exact hok a c hr
  | error e c => exact herr e c hr

/-- A call of the core whose end is known. -/
theorem onDebuggedCore_ok {α : Type} {x : EStateM Abort (ProcessorCore γ) α}
    {Q : α → Stub γ → Prop} {E : StubEnd → Stub γ → Prop} {a : α} {c : ProcessorCore γ}
    (hr : x.run s.debuggedCore = .ok a c) (h : Q a { s with debuggedCore := c }) :
    Sat s (onDebuggedCore x) Q E := by
  refine onDebuggedCore_sat (fun a' c' hr' => ?_) fun e c' hr' => ?_
  · cases hr.symm.trans hr'
    exact h
  · cases hr.symm.trans hr'

variable {R : Stub γ → Stub γ → Prop} [IsPreorder (Stub γ) R]

theorem resend_keeps (hread : Keeps R (readByte : StubM γ (Option Byte)))
    (hresent : ∀ frame, Keeps R (emit (.resent frame) : StubM γ Unit)) (buffer_to_send : List Byte)
    (left : Nat) (ack : Byte) : Keeps R (resend buffer_to_send left ack : StubM γ Unit) := by
  induction left generalizing ack with
  | zero => exact .pure _
  | succ left ih => exact .ite (.pure _) (.bind (hresent _) fun _ => .bind hread fun _ => ih _)

theorem packingAndSend_keeps (hread : Keeps R (readByte : StubM γ (Option Byte)))
    (hsent : ∀ frame, Keeps R (emit (.sent frame) : StubM γ Unit))
    (hresent : ∀ frame, Keeps R (emit (.resent frame) : StubM γ Unit)) (data : List Byte) :
    Keeps R (packingAndSend data : StubM γ Unit) :=
  .bind (hsent _) fun _ => .bind hread fun _ => resend_keeps hread hresent _ _ _

omit [IsPreorder (Stub γ) R] in
theorem onDebuggedCore_keeps {α : Type} (x : EStateM Abort (ProcessorCore γ) α)
    (hcore : ∀ s c, R s { s with debuggedCore := c }) : Keeps R (onDebuggedCore x) :=
  fun s => onDebuggedCore_sat (fun _ c _ => hcore s c) fun _ c _ => hcore s c

variable [ProcessorCoreI γ]

/-- What a case of the switch does after its acknowledgement. -/
def command (env : StubEnv) (parsed_packet : GdbRspPacket) : StubM γ Unit :=
  match parsed_packet.packetType with
  | .cmdQueryHaltReason => cmdGetHaltReason
  | .cmdRegReadAll => cmdReadAllRegister
  | .cmdRegWriteAll => cmdWriteAllRegister parsed_packet
  | .cmdQSupported => cmdQSupported parsed_packet
  | .cmdMemRead => cmdMemRead env parsed_packet
  | .cmdMemWrite => cmdMemWrite parsed_packet
  | .cmdInsertBreakpoint => cmdInsertBreakpoint parsed_packet
  | .cmdRemoveBreakpoint => cmdRemoveBreakpoint parsed_packet
  | .cmdContinue => cmdContinue env parsed_packet
  | .cmdUnknown => cmdUnknown
  | _ => pure ()

/-- Every case of the switch acknowledges the packet, a second time. -/
theorem dispatch_eq (env : StubEnv) (parsed_packet : GdbRspPacket) :
    dispatch (γ := γ) env parsed_packet =
      if parsed_packet.packetType.hasCase then sendACK >>= fun _ => command env parsed_packet
      else throw .unreachable := by
  rw [dispatch, command]
  cases parsed_packet.packetType <;> rfl

/-- The commands send replies, call the core and do nothing else. -/
theorem command_keeps (env : StubEnv) (parsed_packet : GdbRspPacket)
    (hsend : ∀ data, Keeps R (packingAndSend data))
    (hcore : ∀ s c, R s { s with debuggedCore := c }) : Keeps R (command env parsed_packet) := by
  have hcall {α : Type} (x : EStateM Abort (ProcessorCore γ) α) := onDebuggedCore_keeps x hcore
  have hbreak (change : Word → ProcessorCore γ → ProcessorCore γ) :
      Keeps R (cmdBreakpoint change parsed_packet) := by
    rw [cmdBreakpoint]
    split
    · exact .ite (hsend _) (.bind (fun s => .modify (hcore s _)) fun _ => hsend _)
    · exact hsend _
  rw [command]
  split
  · exact hsend _
  · exact .bind .get fun _ => hsend _
  · rw [cmdWriteAllRegister]
    split
    · refine .ite (hsend _) (.ite (.throw _) ?_)
      exact .bind (hcall _) fun _ => .ite (hsend _) (.pure _)
    · exact hsend _
  · exact hsend _
  · rw [cmdMemRead]
    split
    · exact .ite (.throw _) (.bind (hcall _) fun _ => .ite (hsend _) (hsend _))
    · exact hsend _
  · rw [cmdMemWrite]
    split
    · refine .ite (hsend _) (.ite (.throw _) ?_)
      exact .bind (hcall _) fun _ => .ite (hsend _) (.pure _)
    · exact hsend _
  · exact hbreak _
  · exact hbreak _
  · rw [cmdContinue]
    exact .ite (hsend _) (.bind (hcall _) fun _ => .ite (hsend _) (.throw _))
  · exact hsend _
  · exact .pure _

end Frame

end GDBStub

end MEmu
