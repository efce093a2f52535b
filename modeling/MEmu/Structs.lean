import MEmu.Lib.BitField

/-!
# Data types of the RV64 core

The enumerations and register layouts of `status_enum.h`, `rv64_structs.h`,
`rv64_csr_structs.h`, `rv64_sv39_structs.h` and `rv64_int_status.h`, and the
result codes of `RV64SV39_MMU.h`.  A `uint64_t` is a `Word`.  A C enumeration is
an inductive type with `val`, its numeric value.  A union over a register is the
raw word, with one reader and one writer for each field, in a namespace of its
own for each layout.
-/

namespace MEmu

/-- `uint64_t`, and `int64_t` where an operation reads it as signed. -/
abbrev Word := BitVec 64

/-- `uint8_t`. -/
abbrev Byte := BitVec 8

/-! ## Result codes -/

/-- `FuncReturnFeedback_e`. -/
inductive FuncReturnFeedback where
  | ok
  | invalidParam
  | nullPtr
  | addrConflict
  | intNumConflict
  | invalidState
  | notFound
  | notAccessible
  | dataModified
  | fileOpenErr
  | timeout
  | alignmentError
  | invalidAddr
  | panic
  | unknown
  | notImpl
  | protocolErr
  | chksumErr
  | moduleMissingEnv
deriving DecidableEq

/-- `VAddr_RW_Feedback`.  The `INST_*` names of the source are the same values. -/
inductive VAddrRWFeedback where
  | accessOk
  | accessFault
  | pageFault
  | misAlign
deriving DecidableEq

/-- What ends the process: a failed `assert`, or a read or write outside a host
buffer, after which C++ promises nothing. -/
inductive Abort where
  /-- `raiseTrap`: `assert(!this->needTrap)`. -/
  | needTrap
  /-- `raiseTrap`: `assert(cause.cause != exec_ok)`. -/
  | causeOk
  /-- `raiseTrap`: a fetch page fault at the trap vector itself. -/
  | fetchFaultAtTrapVector
  /-- `csr_write`: `assert(tvec->mode <= 1)` for `mtvec`. -/
  | mtvecMode
  /-- `Step_CoreAPI`: `assert(cause.cause)` after a failed fetch. -/
  | fetchCause
  /-- `Step_CoreAPI`: a reserved field of `mstatus` is not zero. -/
  | statusBlank
  /-- `VAddr_InstFetch_MMU_API`: `assert(begin_addr % 2 == 0)`. -/
  | fetchAlign
  /-- `getTLBEntry`: the virtual address is not canonical. -/
  | canonical
  /-- `getTLBEntry`: a second slot matches. -/
  | tlbUnique
  /-- `getTLBEntry`: a page-table entry could not be read. -/
  | pteRead
  /-- The access functions: `assert(page_size)`. -/
  | pageSize
  /-- `pa_amo_op`: the default of the operation switch. -/
  | amoOp
  /-- `SetGPRByIndex_CoreAPI`: `assert(gpr_index < 32)`. -/
  | gprIndex
  /-- `RegisterMMIODev_MMIOBus_API`: the region conflicts with another. -/
  | regionConflict
  /-- `memcpy` outside the host buffer of a device. -/
  | outOfBuffer
deriving DecidableEq

/-! ## Privilege modes, exceptions and interrupts -/

/-- `PrivMode_e`. -/
inductive PrivMode where
  | uMode
  | sMode
  | hMode
  | mMode
deriving DecidableEq, Inhabited

namespace PrivMode

/-- The numeric value of a mode, which is how modes are compared. -/
def val : PrivMode → BitVec 2
  | uMode => 0
  | sMode => 1
  | hMode => 2
  | mMode => 3

/-- The cast `(PrivMode_e)(v)` from a two-bit field. -/
def ofVal (v : BitVec 2) : PrivMode :=
  if v = 0 then uMode else if v = 1 then sMode else if v = 2 then hMode else mMode

@[simp] theorem ofVal_val (p : PrivMode) : ofVal p.val = p := by
  cases p <;> rfl

@[simp] theorem val_ofVal (v : BitVec 2) : (ofVal v).val = v := by
  revert v
  decide

theorem val_injective {p q : PrivMode} (h : p.val = q.val) : p = q := by
  rw [← ofVal_val p, h, ofVal_val]

theorem val_le_of_eq {p q : PrivMode} (h : p = q) : p.val ≤ q.val := h ▸ BitVec.le_refl _

end PrivMode

/-- `RV64_ExecFeedbackCode_e`. -/
inductive ExecFeedbackCode where
  | instrMisalign
  | instrAccFault
  | illegalInstr
  | breakpoint
  | loadMisalign
  | loadAccFault
  | storeMisalign
  | storeAccFault
  | ecallFromUser
  | ecallFromSupervisor
  | ecallFromMachine
  | instrPgfault
  | loadPgfault
  | storePgfault
  | ok
deriving DecidableEq

/-- The cause number of an exception. -/
def ExecFeedbackCode.val : ExecFeedbackCode → BitVec 63
  | instrMisalign => 0
  | instrAccFault => 1
  | illegalInstr => 2
  | breakpoint => 3
  | loadMisalign => 4
  | loadAccFault => 5
  | storeMisalign => 6
  | storeAccFault => 7
  | ecallFromUser => 8
  | ecallFromSupervisor => 9
  | ecallFromMachine => 11
  | instrPgfault => 12
  | loadPgfault => 13
  | storePgfault => 15
  | ok => 24

/-- `IntType_e`. -/
inductive IntType where
  | sSw
  | mSw
  | sTimer
  | mTimer
  | sExt
  | mExt
  | noInt
deriving DecidableEq

/-- The cause number of an interrupt, which is also its bit in `mip` and `mie`. -/
def IntType.val : IntType → Nat
  | sSw => 1
  | mSw => 3
  | sTimer => 5
  | mTimer => 7
  | sExt => 9
  | mExt => 11
  | noInt => 24

/-- `bits_to_int_type`: the pending interrupt served first, in the order MEI,
MSI, MTI, SEI, SSI, STI. -/
def bitsToIntType (int_bits : Word) : IntType :=
  if int_bits.getLsbD IntType.mExt.val then .mExt
  else if int_bits.getLsbD IntType.mSw.val then .mSw
  else if int_bits.getLsbD IntType.mTimer.val then .mTimer
  else if int_bits.getLsbD IntType.sExt.val then .sExt
  else if int_bits.getLsbD IntType.sSw.val then .sSw
  else if int_bits.getLsbD IntType.sTimer.val then .sTimer
  else .noInt

/-- `IntStatus_t`: the four interrupt lines into a hart. -/
structure IntStatus where
  meip : Bool
  msip : Bool
  mtip : Bool
  seip : Bool
deriving DecidableEq, Inhabited

/-! ## Control and status registers -/

/-! `CSReg_MStatus_t`: the machine layout of the status word. -/

namespace MStatus

def sie (s : Word) : Bool := s.getLsbD 1
def mie (s : Word) : Bool := s.getLsbD 3
def spie (s : Word) : Bool := s.getLsbD 5
def mpie (s : Word) : Bool := s.getLsbD 7
def spp (s : Word) : Bool := s.getLsbD 8
def mpp (s : Word) : BitVec 2 := BitField.get 11 2 s
def mprv (s : Word) : Bool := s.getLsbD 17
def sum (s : Word) : Bool := s.getLsbD 18
def mxr (s : Word) : Bool := s.getLsbD 19
def tvm (s : Word) : Bool := s.getLsbD 20
def tw (s : Word) : Bool := s.getLsbD 21
def tsr (s : Word) : Bool := s.getLsbD 22

def ube (s : Word) : Bool := s.getLsbD 6
def vs (s : Word) : BitVec 2 := BitField.get 9 2 s
def fs (s : Word) : BitVec 2 := BitField.get 13 2 s
def xs (s : Word) : BitVec 2 := BitField.get 15 2 s
def uxl (s : Word) : BitVec 2 := BitField.get 32 2 s
def sxl (s : Word) : BitVec 2 := BitField.get 34 2 s
def sbe (s : Word) : Bool := s.getLsbD 36
def mbe (s : Word) : Bool := s.getLsbD 37
def sd (s : Word) : Bool := s.getLsbD 63

def blank0 (s : Word) : Bool := s.getLsbD 0
def blank1 (s : Word) : Bool := s.getLsbD 2
def blank2 (s : Word) : Bool := s.getLsbD 4
def blank3 (s : Word) : BitVec 9 := BitField.get 23 9 s
def blank4 (s : Word) : BitVec 25 := BitField.get 38 25 s

def setSie (b : Bool) (s : Word) : Word := BitField.setBit 1 b s
def setMie (b : Bool) (s : Word) : Word := BitField.setBit 3 b s
def setSpie (b : Bool) (s : Word) : Word := BitField.setBit 5 b s
def setMpie (b : Bool) (s : Word) : Word := BitField.setBit 7 b s
def setSpp (b : Bool) (s : Word) : Word := BitField.setBit 8 b s
def setMpp (v : BitVec 2) (s : Word) : Word := BitField.set 11 v s
def setMprv (b : Bool) (s : Word) : Word := BitField.setBit 17 b s
def setSum (b : Bool) (s : Word) : Word := BitField.setBit 18 b s
def setMxr (b : Bool) (s : Word) : Word := BitField.setBit 19 b s
def setTvm (b : Bool) (s : Word) : Word := BitField.setBit 20 b s
def setTw (b : Bool) (s : Word) : Word := BitField.setBit 21 b s
def setTsr (b : Bool) (s : Word) : Word := BitField.setBit 22 b s
def setUxl (v : BitVec 2) (s : Word) : Word := BitField.set 32 v s
def setSxl (v : BitVec 2) (s : Word) : Word := BitField.set 34 v s

end MStatus

/-! `CSReg_SStatus_t`: the supervisor layout of the same word. -/

namespace SStatus

def sie (s : Word) : Bool := s.getLsbD 1
def spie (s : Word) : Bool := s.getLsbD 5
def spp (s : Word) : Bool := s.getLsbD 8
def sum (s : Word) : Bool := s.getLsbD 18
def mxr (s : Word) : Bool := s.getLsbD 19

def setSie (b : Bool) (s : Word) : Word := BitField.setBit 1 b s
def setSpie (b : Bool) (s : Word) : Word := BitField.setBit 5 b s
def setUbe (b : Bool) (s : Word) : Word := BitField.setBit 6 b s
def setSpp (b : Bool) (s : Word) : Word := BitField.setBit 8 b s
def setVs (v : BitVec 2) (s : Word) : Word := BitField.set 9 v s
def setFs (v : BitVec 2) (s : Word) : Word := BitField.set 13 v s
def setXs (v : BitVec 2) (s : Word) : Word := BitField.set 15 v s
def setSum (b : Bool) (s : Word) : Word := BitField.setBit 18 b s
def setMxr (b : Bool) (s : Word) : Word := BitField.setBit 19 b s
def setUxl (v : BitVec 2) (s : Word) : Word := BitField.set 32 v s
def setSd (b : Bool) (s : Word) : Word := BitField.setBit 63 b s

end SStatus

/-! `CSReg_IntPending_t`: the four bits of `mip` that the interrupt lines drive. -/

namespace IntPending

def setMEIp (b : Bool) (p : Word) : Word := BitField.setBit 11 b p
def setMSIp (b : Bool) (p : Word) : Word := BitField.setBit 3 b p
def setMTIp (b : Bool) (p : Word) : Word := BitField.setBit 7 b p
def setSEIp (b : Bool) (p : Word) : Word := BitField.setBit 9 b p

end IntPending

/-! `CSReg_TrapVector_t`. -/

namespace TrapVector

def mode (t : Word) : BitVec 2 := BitField.get 0 2 t
def base (t : Word) : Word := t >>> 2
def setMode (v : BitVec 2) (t : Word) : Word := BitField.set 0 v t

end TrapVector

/-! `CSReg_Cause_t`. -/

namespace Cause

def cause (c : Word) : BitVec 63 := BitField.get 0 63 c
def interrupt (c : Word) : Bool := c.getLsbD 63

/-- `{ .cause = c, .interrupt = i }`. -/
def mk (c : BitVec 63) (i : Bool) : Word := (BitVec.ofBool i ++ c : BitVec (1 + 63))

/-- The cause of an exception. -/
def exception (c : ExecFeedbackCode) : Word := mk c.val false

/-- The cause of an interrupt. -/
def int (i : IntType) : Word := mk (BitVec.ofNat 63 i.val) true

end Cause

/-! `CSR_CounterEN_t`. -/

namespace CounterEN

def cycle (c : Word) : Bool := c.getLsbD 0

end CounterEN

/-! `SATP_Reg_t`. -/

namespace Satp

def ppn (s : Word) : Word := (BitField.get 0 44 s).setWidth 64
def asid (s : Word) : BitVec 16 := BitField.get 44 16 s
def mode (s : Word) : BitVec 4 := BitField.get 60 4 s
def setMode (v : BitVec 4) (s : Word) : Word := BitField.set 60 v s

end Satp

/-! ## Sv39 -/

/-- The `pagesize` field of a TLB entry. -/
inductive PageSize where
  | invalid
  | size4K
  | size2M
  | size1G
deriving DecidableEq, Inhabited

namespace PageSize

/-- The page size in bytes, and 0 for an invalid entry. -/
def bytes : PageSize → Word
  | invalid => 0
  | size4K => 1 <<< 12
  | size2M => 1 <<< 21
  | size1G => 1 <<< 30

/-- `_4k_PAGE_ADDR_MASK`, `_2M_PAGE_ADDR_MASK` and `_1G_PAGE_ADDR_MASK`. -/
def mask : PageSize → Word
  | invalid => 0
  | size4K => -(1 <<< 12)
  | size2M => -(1 <<< 21)
  | size1G => -(1 <<< 30)

end PageSize

/-- `SV39_TLB_Entry_t`. -/
structure SV39TLBEntry where
  ppa : Word
  vpa : Word
  asid : BitVec 16
  pagesize : PageSize
  R : Bool
  W : Bool
  X : Bool
  U : Bool
  G : Bool
  A : Bool
  D : Bool
deriving Inhabited

/-! `SV39_PageTableEntry_t`. -/

namespace PTE

def V (p : Word) : Bool := p.getLsbD 0
def R (p : Word) : Bool := p.getLsbD 1
def W (p : Word) : Bool := p.getLsbD 2
def X (p : Word) : Bool := p.getLsbD 3
def U (p : Word) : Bool := p.getLsbD 4
def G (p : Word) : Bool := p.getLsbD 5
def A (p : Word) : Bool := p.getLsbD 6
def D (p : Word) : Bool := p.getLsbD 7
def PPN0 (p : Word) : BitVec 9 := BitField.get 10 9 p
def PPN1 (p : Word) : BitVec 9 := BitField.get 19 9 p
def PPN2 (p : Word) : BitVec 26 := BitField.get 28 26 p
def reserved (p : Word) : BitVec 7 := BitField.get 54 7 p
def PBMT (p : Word) : BitVec 2 := BitField.get 61 2 p

/-- The physical address joined from the three page numbers. -/
def ppa (p : Word) : Word :=
  (((PPN2 p).setWidth 64 <<< 18) ||| ((PPN1 p).setWidth 64 <<< 9) ||| (PPN0 p).setWidth 64) <<< 12

end PTE

/-! `SV39_VAddr_t`. -/

namespace VAddr

def vpn0 (v : Word) : BitVec 9 := BitField.get 12 9 v
def vpn1 (v : Word) : BitVec 9 := BitField.get 21 9 v
def vpn2 (v : Word) : BitVec 9 := BitField.get 30 9 v
def blank (v : Word) : BitVec 25 := BitField.get 39 25 v

/-- The upper bits repeat bit 38, as the assertion of `getTLBEntry` demands. -/
def canonical (v : Word) : Bool :=
  (blank v == BitVec.allOnes 25 && (vpn2 v).getLsbD 8) ||
    (blank v == 0 && !(vpn2 v).getLsbD 8)

end VAddr

end MEmu
