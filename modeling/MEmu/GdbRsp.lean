import MEmu.Structs
import MEmu.Lib.Regex

/-!
# The remote serial protocol

`gdb_rsp.cpp`: the table of commands, the check sum, the parser of a packet and the parser of
bytes in hexadecimal.  A `char` is a `Byte`, and a string that ends at its first NUL is the list
of the bytes before it.
-/

namespace MEmu

open Regex (Expr)
open Regex.Expr (seqs lit)

/-- A character of the source. -/
def ch (c : Char) : Byte := BitVec.ofNat 8 c.toNat

/-- A string literal of the source. -/
def str (cs : List Char) : List Byte := cs.map ch

/-- `PACKET_BEGIN_CHAR`. -/
def packetBeginChar : Byte := ch '$'

/-- `PACKET_END_CHAR`. -/
def packetEndChar : Byte := ch '#'

/-- The string at the start of a buffer that is followed by a NUL. -/
def cString (data : List Byte) : List Byte := data.takeWhile (· != 0)

/-! ## Packets -/

/-- `GDB_RSP_PacketType_e`. -/
inductive PacketType where
  | cmdUnknown
  | cmdMemRead
  | cmdMemWrite
  | cmdRegReadIndex
  | cmdRegWriteIndex
  | cmdRegReadAll
  | cmdRegWriteAll
  | cmdQTraceStatus
  | cmdQueryHaltReason
  | cmdSingleStep
  | cmdInsertBreakpoint
  | cmdRemoveBreakpoint
  | cmdContinue
  | cmdSpecifyThreadForG
  | cmdSpecifyThreadForC
  | cmdQAttached
  | cmdQSupported
  | cmdQThreadInfo
  | emptyPacket
deriving DecidableEq

/-- `GDB_RSP_Packet`. -/
structure GdbRspPacket where
  packetType : PacketType
  cmd : List Byte
  paramList : List (List Byte)

/-! ## The table of commands -/

/-- The characters from `lo` to `hi`. -/
def inChars (lo hi : Char) (b : Byte) : Bool := lo.toNat ≤ b.toNat && b.toNat ≤ hi.toNat

/-- `[0-9A-Fa-f]`. -/
def isHexDigit (b : Byte) : Bool := inChars '0' '9' b || inChars 'A' 'F' b || inChars 'a' 'f' b

/-- `[a-zA-Z-]`. -/
def isFeatureChar (b : Byte) : Bool := inChars 'a' 'z' b || inChars 'A' 'Z' b || b == ch '-'

/-- `\w`. -/
def isWordChar (b : Byte) : Bool :=
  inChars 'a' 'z' b || inChars 'A' 'Z' b || inChars '0' '9' b || b == ch '_'

/-- `.`, which is any character but an end of line. -/
def isAnyChar (b : Byte) : Bool := b != ch '\n' && b != ch '\r'

/-- `[0-9A-Fa-f]+`. -/
def hexField : Expr Byte := .plus (.char isHexDigit)

/-- Hexadecimal fields, each after a character of its own. -/
def hexFields (seps : List Char) : Expr Byte := seqs (seps.flatMap fun c => [lit (ch c), hexField])

/-- A row of `PacketTypeRegexStr_GV`. -/
structure PacketRegex where
  packetType : PacketType
  /-- The whole-command regex. -/
  whole : Expr Byte
  /-- The param regex, if there is one. -/
  param : Option (Expr Byte)

namespace PacketRegex

/-- `(m)([0-9A-Fa-f]+),([0-9A-Fa-f]+)`. -/
def cmdMemRead : PacketRegex := ⟨.cmdMemRead, hexFields ['m', ','], some hexField⟩

/-- `(M)([0-9A-Fa-f]+),([0-9A-Fa-f]+):([0-9A-Fa-f]+)`. -/
def cmdMemWrite : PacketRegex := ⟨.cmdMemWrite, hexFields ['M', ',', ':'], some hexField⟩

/-- `(p)([0-9A-Fa-f]+)`. -/
def cmdRegReadIndex : PacketRegex := ⟨.cmdRegReadIndex, hexFields ['p'], some hexField⟩

/-- `(g)`. -/
def cmdRegReadAll : PacketRegex := ⟨.cmdRegReadAll, lit (ch 'g'), none⟩

/-- `(G)([0-9A-Fa-f]+)`. -/
def cmdRegWriteAll : PacketRegex := ⟨.cmdRegWriteAll, hexFields ['G'], some hexField⟩

/-- `(\?)`. -/
def cmdQueryHaltReason : PacketRegex := ⟨.cmdQueryHaltReason, lit (ch '?'), none⟩

/-- `(Z)([0-9A-Fa-f]+),([0-9A-Fa-f]+),([0-9A-Fa-f]+)`. -/
def cmdInsertBreakpoint : PacketRegex :=
  ⟨.cmdInsertBreakpoint, hexFields ['Z', ',', ','], some hexField⟩

/-- `(z)([0-9A-Fa-f]+),([0-9A-Fa-f]+),([0-9A-Fa-f]+)`. -/
def cmdRemoveBreakpoint : PacketRegex :=
  ⟨.cmdRemoveBreakpoint, hexFields ['z', ',', ','], some hexField⟩

/-- `((c)([0-9A-Fa-f]+))|(c)`, with the parameters `.([0-9A-Fa-f]+)`. -/
def cmdContinue : PacketRegex :=
  ⟨.cmdContinue, .alt (hexFields ['c']) (lit (ch 'c')), some (.seq (.char isAnyChar) hexField)⟩

/-- `(qSupported):(?:[a-zA-Z-]+\+?;?)+`, with the parameters `(-|\w)+(?=\+)`. -/
def cmdQSupported : PacketRegex :=
  ⟨.cmdQSupported,
    seqs ((str ['q', 'S', 'u', 'p', 'p', 'o', 'r', 't', 'e', 'd', ':']).map lit ++
      [.plus (seqs [.plus (.char isFeatureChar), .opt (lit (ch '+')), .opt (lit (ch ';'))])]),
    some (.seq (.plus (.alt (lit (ch '-')) (.char isWordChar))) (.ahead (lit (ch '+'))))⟩

/-- The parameters that the row finds in a packet. -/
def params (r : PacketRegex) (data_str : List Byte) : List (List Byte) :=
  match r.param with
  | some param_regex => Regex.findAll param_regex data_str
  | none => []

end PacketRegex

/-- `PacketTypeRegexStr_GV`, in the order of its keys. -/
def packetTypeRegexStr : List PacketRegex :=
  [.cmdMemRead, .cmdMemWrite, .cmdRegReadIndex, .cmdRegReadAll, .cmdRegWriteAll,
    .cmdQueryHaltReason, .cmdInsertBreakpoint, .cmdRemoveBreakpoint, .cmdContinue, .cmdQSupported]

/-! ## The functions -/

/-- `CalCheckSum_GDB_RSP_Utils`.  A `char` is signed. -/
def calCheckSum (data : List Byte) : Byte :=
  (data.foldl (fun sum c => sum + c.signExtend 64) (0 : Word)).setWidth 8

/-- `ParsePacket_GDB_RSP_Utils`.  The type that it sets for an empty packet does not last. -/
def parsePacket (data : List Byte) : GdbRspPacket :=
  let data_str := cString data
  let ret_packet : GdbRspPacket :=
    if data.length = 0 then ⟨.emptyPacket, [], []⟩ else ⟨.cmdUnknown, [], []⟩
  match packetTypeRegexStr.find? fun p => Regex.matchesWhole p.whole data_str with
  | some p =>
      { ret_packet with
        packetType := p.packetType
        paramList := ret_packet.paramList ++ p.params data_str }
  | none => { ret_packet with packetType := .cmdUnknown, cmd := data_str }

/-- The value of a hexadecimal digit. -/
def hexDigit (b : Byte) : Nat :=
  if inChars '0' '9' b then b.toNat - '0'.toNat
  else if inChars 'A' 'F' b then b.toNat - 'A'.toNat + 10
  else b.toNat - 'a'.toNat + 10

/-- The value of hexadecimal digits. -/
def hexValue (digits : List Byte) : Nat := digits.foldl (fun v b => 16 * v + hexDigit b) 0

/-- `strtoll(str, nullptr, 16)`.  Parameters are digits from end to end, so there is no blank, sign
or prefix before the digits.  A value that is too large becomes `LLONG_MAX`. -/
def strtoll (digits : List Byte) : Word :=
  BitVec.ofNat 64 (min (hexValue (digits.takeWhile isHexDigit)) (2 ^ 63 - 1))

/-- `ParseByteStreamStr` on a string of even length. -/
def parseByteStreamStr : List Byte → List Byte
  | a :: b :: rest => BitVec.ofNat 8 (hexValue [a, b]) :: parseByteStreamStr rest
  | _ => []

/-- The digit that `%x` writes. -/
def hexChar (n : Nat) : Byte := if n < 10 then ch '0' + BitVec.ofNat 8 n else
  ch 'a' + BitVec.ofNat 8 (n - 10)

/-- What `%02x` writes. -/
def hexByte (b : Byte) : List Byte := [hexChar (b.toNat / 16), hexChar (b.toNat % 16)]

end MEmu
