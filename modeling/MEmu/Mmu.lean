import MEmu.Bus
import MEmu.Lib.Bytes

/-!
# The Sv39 MMU

`RV64SV39_MMU`: the TLB with its lookup cache, the page-table walk, the three
access functions, and the atomic accesses with the reservation they share.

The MMU reads the mode, `satp`, the status word and the hart id of its core
through references and never writes them.  They are the `MMUEnv` of a call, so
no MMU function can change them.  `MMUSys` is what a call can change: the MMU
itself and the bus.  `busLog` is a record kept for the theorems, one entry for
each access made on the bus, in order.  No function reads it.

The six access functions repeat one path: the access may not cross a page,
`getTLBEntry` finds an entry, a check on the entry permits the access, and the
physical address is joined.  `pagedAddr` is that path, with what differs as
arguments.
-/

namespace MEmu

/-- The number of TLB slots. -/
abbrev TLB_SIZE : Nat := 32

/-- A pointer into the TLB. -/
abbrev TLBIndex := Fin TLB_SIZE

/-- The fields of `RV64SV39_MMU`. -/
structure RV64SV39MMU where
  tlb : TLBIndex → SV39TLBEntry
  tlbGetCache : Word → Option TLBIndex
  lastSwappedIndex : TLBIndex
  lr_pa : Word
  lr_size : Word
  lr_hart : Word
  lr_valid : Bool
deriving Inhabited

/-- The fields of the core that the MMU reads, and what an uninitialised local
variable of eight bytes holds. -/
structure MMUEnv where
  currentPrivMode : PrivMode
  satp : Word
  status : Word
  rvHartID : Word
  indeterminate : Word
deriving Inhabited

/-- What a bus access is made for. -/
inductive AccessKind where
  | walk
  | fetch
  | load
  | loadReserved
  | amoRead
  | store
  | storeConditional
  | amoWrite
deriving DecidableEq

/-- An access on the bus.  `done` says whether the bus answered `MEMU_OK`. -/
structure BusAccess where
  kind : AccessKind
  addr : Word
  size : Word
  done : Bool
deriving DecidableEq

/-- The access writes. -/
def AccessKind.isWrite : AccessKind → Bool
  | store | storeConditional | amoWrite => true
  | _ => false

/-- What an MMU function can change. -/
structure MMUSys (β : Type) where
  mmu : RV64SV39MMU
  sysBus : β
  busLog : List BusAccess

/-- A computation of the MMU. -/
abbrev MMUM (β : Type) := EStateM Abort (MMUSys β)

/-- `assert(c)`. -/
def cassert {σ : Type} (c : Prop) [Decidable c] (site : Abort) : EStateM Abort σ Unit :=
  if c then pure () else throw site

/-! ## Bus accesses -/

section Bus

variable {β : Type} [MMIOBus β]

/-- A call of the bus, recorded. -/
def busCall {α : Type} (kind : AccessKind) (addr size : Word)
    (feedback : α → FuncReturnFeedback) (call : EStateM Abort β α) : MMUM β α := fun s =>
  match call.run s.sysBus with
  | .ok a b =>
      .ok a { s with
        sysBus := b
        busLog := s.busLog ++ [⟨kind, addr, size, decide (feedback a = .ok)⟩] }
  | .error e b =>
      .error e { s with sysBus := b, busLog := s.busLog ++ [⟨kind, addr, size, false⟩] }

omit [MMIOBus β] in
theorem run_busCall {α : Type} (kind : AccessKind) (addr size : Word)
    (feedback : α → FuncReturnFeedback) (call : EStateM Abort β α) (s : MMUSys β) :
    (busCall kind addr size feedback call).run s = match call.run s.sysBus with
      | .ok a b =>
          .ok a { s with
            sysBus := b
            busLog := s.busLog ++ [⟨kind, addr, size, decide (feedback a = .ok)⟩] }
      | .error e b =>
          .error e { s with sysBus := b, busLog := s.busLog ++ [⟨kind, addr, size, false⟩] } :=
  rfl

def busRead (kind : AccessKind) (addr size : Word) (buffer : List Byte) :
    MMUM β (FuncReturnFeedback × List Byte) :=
  busCall kind addr size Prod.fst (MMIOBus.paddrReadBuffer addr size buffer)

def busWrite (kind : AccessKind) (addr size : Word) (buffer : List Byte) :
    MMUM β FuncReturnFeedback :=
  busCall kind addr size id (MMIOBus.paddrWriteBuffer addr size buffer)

end Bus

namespace MMUEnv

/-- An uninitialised buffer of `n` bytes. -/
def uninit (env : MMUEnv) (n : Nat) : List Byte := Bytes.ofWord n env.indeterminate

/-- Loads, stores and atomics use the address as it is. -/
def bareData (env : MMUEnv) : Bool :=
  (env.currentPrivMode == .mMode &&
    (!MStatus.mprv env.status || MStatus.mpp env.status == PrivMode.mMode.val)) ||
    Satp.mode env.satp == 0

/-- Instruction fetches use the address as it is. -/
def bareFetch (env : MMUEnv) : Bool :=
  env.currentPrivMode == .mMode || Satp.mode env.satp == 0

/-- The mode whose rights an access has, `priv` in the source. -/
def priv (env : MMUEnv) : PrivMode :=
  if MStatus.mprv env.status && env.currentPrivMode == .mMode then
    PrivMode.ofVal (MStatus.mpp env.status)
  else env.currentPrivMode

end MMUEnv

/-! ## TLB slots -/

/-- `isValidDirPTE`. -/
def isValidDirPTE (pte : Word) : Bool :=
  PTE.V pte && !(PTE.R pte || PTE.W pte || PTE.X pte) && PTE.reserved pte == 0 && PTE.PBMT pte == 0

/-- `isValidLeafPTE`. -/
def isValidLeafPTE (pte : Word) : Bool :=
  PTE.V pte && !(PTE.W pte && !PTE.R pte) && (PTE.R pte || PTE.W pte || PTE.X pte) &&
    PTE.reserved pte == 0 && PTE.PBMT pte == 0

namespace RV64SV39MMU

/-- The constructor.  A member it does not set holds what its storage held. -/
def construct (storage : RV64SV39MMU) : RV64SV39MMU :=
  { storage with
    tlb := fun i => { storage.tlb i with pagesize := .invalid }
    tlbGetCache := fun _ => none
    lastSwappedIndex := 0
    lr_valid := false }

/-- `getTLBIndexToSwapOut`. -/
def getTLBIndexToSwapOut (m : RV64SV39MMU) : TLBIndex × RV64SV39MMU :=
  (m.lastSwappedIndex, { m with lastSwappedIndex := m.lastSwappedIndex + 1 })

/-- A slot pointed at from the lookup cache, at one key. -/
def cachePut (m : RV64SV39MMU) (key : Word) (slot : Option TLBIndex) : RV64SV39MMU :=
  { m with tlbGetCache := fun k => if k = key then slot else m.tlbGetCache k }

/-- The entry `writeTLB` makes of a leaf. -/
def leafEntry (satp leaf_pte : Word) (page_size : PageSize) (vaddr : Word) : SV39TLBEntry :=
  { ppa := PTE.ppa leaf_pte
    vpa := vaddr &&& page_size.mask
    asid := Satp.asid satp
    pagesize := page_size
    R := PTE.R leaf_pte
    W := PTE.W leaf_pte
    X := PTE.X leaf_pte
    U := PTE.U leaf_pte
    G := PTE.G leaf_pte
    A := PTE.A leaf_pte
    D := PTE.D leaf_pte }

/-- `writeTLB`.  The cache key of the entry swapped out is dropped, whatever slot
it points at. -/
def writeTLB (satp leaf_pte : Word) (page_size : PageSize) (vaddr : Word) (m : RV64SV39MMU) :
    TLBIndex × RV64SV39MMU :=
  let (i, m) := m.getTLBIndexToSwapOut
  let m := m.cachePut (m.tlb i).vpa none
  let entry := leafEntry satp leaf_pte page_size vaddr
  let m := { m with tlb := fun j => if j = i then entry else m.tlb j }
  (i, m.cachePut entry.vpa (some i))

/-- The slot may serve the address space of `satp`. -/
def asidMatch (satp : Word) (e : SV39TLBEntry) : Bool := e.asid == Satp.asid satp || e.G

/-- The test of the linear scan of `getTLBEntry`. -/
def slotMatches (satp vaddr : Word) (e : SV39TLBEntry) : Bool :=
  asidMatch satp e && e.pagesize != .invalid && vaddr &&& e.pagesize.mask == e.vpa

/-- One of the three cache lookups of `getTLBEntry`. -/
def cacheLookup (satp vaddr : Word) (page_size : PageSize) (m : RV64SV39MMU) :
    Option TLBIndex :=
  match m.tlbGetCache (vaddr &&& page_size.mask) with
  | some i =>
      if asidMatch satp (m.tlb i) && (m.tlb i).pagesize == page_size then some i else none
  | none => none

/-- The linear scan of `getTLBEntry` over the slots still to visit. -/
def scanTLB (satp vaddr : Word) :
    List TLBIndex → Option TLBIndex → EStateM Abort RV64SV39MMU (Option TLBIndex)
  | [], tlb_entry_ptr => pure tlb_entry_ptr
  | i :: slots, tlb_entry_ptr => do
      let m ← get
      if slotMatches satp vaddr (m.tlb i) then
        cassert (tlb_entry_ptr = none) .tlbUnique
        set (m.cachePut (vaddr &&& (m.tlb i).pagesize.mask) (some i))
        scanTLB satp vaddr slots (some i)
      else scanTLB satp vaddr slots tlb_entry_ptr

/-- The entry that `SV39_FlushTLB_sfence_vma` leaves in a slot. -/
def flushEntry (vaddr asid : Word) (e : SV39TLBEntry) : SV39TLBEntry :=
  if e.asid.setWidth 64 = asid ∨ asid = 0 then
    if vaddr = 0 then { e with pagesize := .invalid }
    else if e.pagesize ≠ .invalid ∧ e.vpa &&& e.pagesize.mask = vaddr &&& e.pagesize.mask then
      { e with pagesize := .invalid }
    else e
  else e

/-- `SV39_FlushTLB_sfence_vma`. -/
def flushTLBSfenceVma (vaddr asid : Word) (m : RV64SV39MMU) : RV64SV39MMU :=
  { m with tlb := fun i => flushEntry vaddr asid (m.tlb i) }

/-- The reservation that a load-reserved records, before it reads. -/
def reserve (env : MMUEnv) (begin_addr size : Word) (m : RV64SV39MMU) : RV64SV39MMU :=
  { m with lr_pa := begin_addr, lr_size := size, lr_valid := true, lr_hart := env.rvHartID }

end RV64SV39MMU

namespace MMUSys

variable {β : Type}

/-- A computation on the MMU alone. -/
def onMMU {α : Type} (x : EStateM Abort RV64SV39MMU α) : MMUM β α := fun s =>
  match x.run s.mmu with
  | .ok a m => .ok a { s with mmu := m }
  | .error e m => .error e { s with mmu := m }

theorem run_onMMU {α : Type} (x : EStateM Abort RV64SV39MMU α) (s : MMUSys β) :
    (onMMU x).run s = match x.run s.mmu with
      | .ok a m => .ok a { s with mmu := m }
      | .error e m => .error e { s with mmu := m } := rfl

/-! ## Address translation -/

section Translate

variable [MMIOBus β]

/-- Read entry `vpn` of the page table at `page_table_addr`. -/
def readPTE (env : MMUEnv) (page_table_addr : Word) (vpn : BitVec 9) : MMUM β Word := do
  let r ← busRead .walk (page_table_addr + vpn.setWidth 64 * 8) 8 (env.uninit 8)
  cassert (r.1 = .ok) .pteRead
  pure (Bytes.toWord r.2)

/-- The walk of `getTLBEntry`: the leaf found and the size of its page. -/
def pageTableWalk (env : MMUEnv) (vaddr : Word) : MMUM β (Option (Word × PageSize)) := do
  let l2_pte ← readPTE env (Satp.ppn env.satp <<< 12) (VAddr.vpn2 vaddr)
  if isValidLeafPTE l2_pte then pure (some (l2_pte, .size1G))
  else if !isValidDirPTE l2_pte then pure none
  else
    let l1_pte ← readPTE env (PTE.ppa l2_pte) (VAddr.vpn1 vaddr)
    if isValidLeafPTE l1_pte then pure (some (l1_pte, .size2M))
    else if !isValidDirPTE l1_pte then pure none
    else
      let l0_pte ← readPTE env (PTE.ppa l1_pte) (VAddr.vpn0 vaddr)
      if isValidLeafPTE l0_pte then pure (some (l0_pte, .size4K))
      else pure none

/-- The part of `getTLBEntry` before the walk: the three cache lookups, then the
linear scan. -/
def lookupTLB (satp vaddr : Word) : EStateM Abort RV64SV39MMU (Option TLBIndex) := do
  let m ← get
  match m.cacheLookup satp vaddr .size4K with
  | some i => pure (some i)
  | none =>
      match m.cacheLookup satp vaddr .size2M with
      | some i => pure (some i)
      | none =>
          match m.cacheLookup satp vaddr .size1G with
          | some i => pure (some i)
          | none => RV64SV39MMU.scanTLB satp vaddr (List.finRange TLB_SIZE) none

/-- `getTLBEntry`. -/
def getTLBEntry (env : MMUEnv) (vaddr : Word) : MMUM β (Option TLBIndex) := do
  cassert (VAddr.canonical vaddr = true) .canonical
  match ← onMMU (lookupTLB env.satp vaddr) with
  | some i => pure (some i)
  | none =>
      if Satp.mode env.satp ≠ 8 then pure none
      else
        match ← pageTableWalk env vaddr with
        | none => pure none
        | some (leaf_pte, page_size) =>
            let i ← onMMU (modifyGet (RV64SV39MMU.writeTLB env.satp leaf_pte page_size vaddr))
            pure (some i)

/-- The page-based path of the access functions: the physical address, or the
fault that ends the access. -/
def pagedAddr {φ : Type} (env : MMUEnv) (begin_addr size : Word) (misalign pgfault : φ)
    (check : SV39TLBEntry → Option φ) : MMUM β (Except φ Word) := do
  if begin_addr >>> 12 ≠ (begin_addr + size - 1) >>> 12 then pure (.error misalign)
  else
    match ← getTLBEntry env begin_addr with
    | none => pure (.error pgfault)
    | some i =>
        let s ← get
        let tlb_entry := s.mmu.tlb i
        match check tlb_entry with
        | some fault => pure (.error fault)
        | none =>
            let page_size := tlb_entry.pagesize.bytes
            cassert (page_size ≠ 0) .pageSize
            pure (.ok (tlb_entry.ppa + begin_addr % page_size))

end Translate

end MMUSys

/-- The check of a load or a load-reserved on its entry. -/
def loadCheck {φ : Type} (env : MMUEnv) (pgfault accfault : φ) (e : SV39TLBEntry) : Option φ :=
  if !e.A || (!e.R && !(MStatus.mxr env.status && !e.X)) then some pgfault
  else if env.priv == .uMode && !e.U then some pgfault
  -- the current mode, and not the effective one, decides here
  else if !MStatus.sum env.status && env.currentPrivMode == .sMode && e.U then some accfault
  else none

/-- The check of a store, a store-conditional or an AMO on its entry. -/
def storeCheck {φ : Type} (env : MMUEnv) (pgfault : φ) (e : SV39TLBEntry) : Option φ :=
  if !e.A || !e.D || !e.W then some pgfault
  else if env.priv == .uMode && !e.U then some pgfault
  else if !MStatus.sum env.status && env.priv == .sMode && e.U then some pgfault
  else none

/-- The check of an instruction fetch on its entry. -/
def fetchCheck (env : MMUEnv) (e : SV39TLBEntry) : Option VAddrRWFeedback :=
  if !e.A || !e.X then some .pageFault
  else if (env.currentPrivMode == .uMode && !e.U) || (env.currentPrivMode == .sMode && e.U) then
    some .pageFault
  else none

namespace MMUSys

variable {β : Type} [MMIOBus β]

/-! ## Loads, fetches and stores -/

/-- A read for a load or a fetch, once the address is known. -/
def readAt (kind : AccessKind) (addr size : Word) (buffer : List Byte) :
    MMUM β (VAddrRWFeedback × List Byte) := do
  let r ← busRead kind addr size buffer
  pure (if r.1 = .ok then .accessOk else .accessFault, r.2)

/-- `VAddr_ReadBuffer_MMU_API`. -/
def vaddrReadBuffer (env : MMUEnv) (begin_addr size : Word) (buffer : List Byte) :
    MMUM β (VAddrRWFeedback × List Byte) := do
  if env.bareData then readAt .load begin_addr size buffer
  else
    match ← pagedAddr env begin_addr size .misAlign .pageFault
        (loadCheck env .pageFault .accessFault) with
    | .error fault => pure (fault, buffer)
    | .ok paddr => readAt .load paddr size buffer

/-- `VAddr_InstFetch_MMU_API` where it does not split the access. -/
def instFetchWhole (env : MMUEnv) (begin_addr size : Word) (buffer : List Byte) :
    MMUM β (VAddrRWFeedback × List Byte) := do
  cassert (begin_addr % 2 = 0) .fetchAlign
  if env.bareFetch then readAt .fetch begin_addr size buffer
  else
    match ← pagedAddr env begin_addr size .misAlign .pageFault (fetchCheck env) with
    | .error fault => pure (fault, buffer)
    | .ok paddr => readAt .fetch paddr size buffer

/-- `VAddr_InstFetch_MMU_API`.  Four bytes at an address that is 2 modulo 4 are
fetched in two halves. -/
def vaddrInstFetch (env : MMUEnv) (begin_addr size : Word) (buffer : List Byte) :
    MMUM β (VAddrRWFeedback × List Byte) := do
  if size = 4 ∧ begin_addr % 4 = 2 then
    let (fb_1, low) ← instFetchWhole env begin_addr 2 (buffer.take 2)
    if fb_1 ≠ .accessOk then pure (fb_1, low ++ buffer.drop 2)
    else
      let (fb_2, high) ← instFetchWhole env (begin_addr + 2) 2 (buffer.drop 2)
      pure (fb_2, low ++ high)
  else instFetchWhole env begin_addr size buffer

/-- `VAddr_WriteBuffer_MMU_API`. -/
def vaddrWriteBuffer (env : MMUEnv) (begin_addr size : Word) (buffer : List Byte) :
    MMUM β VAddrRWFeedback := do
  if env.bareData then
    let fb ← busWrite .store begin_addr size buffer
    pure (if fb = .ok then .accessOk else .accessFault)
  else
    match ← pagedAddr env begin_addr size .misAlign .pageFault (storeCheck env .pageFault) with
    | .error fault => pure fault
    | .ok paddr => do
        let fb ← busWrite .store paddr size buffer
        -- a failed write is a page fault here, and an access fault without translation
        pure (if fb = .ok then .accessOk else .pageFault)

end MMUSys

/-! ## Atomic accesses -/

/-- `AMO_Funct_enum`. -/
inductive AMOFunct where
  | lr
  | sc
  | swap
  | add
  | xor
  | and
  | or
  | min
  | max
  | minu
  | maxu
deriving DecidableEq

/-- The value of the field `funct5`. -/
def AMOFunct.val : AMOFunct → BitVec 5
  | lr => 0b00010
  | sc => 0b00011
  | swap => 0b00001
  | add => 0b00000
  | xor => 0b00100
  | and => 0b01100
  | or => 0b01000
  | min => 0b10000
  | max => 0b10100
  | minu => 0b11000
  | maxu => 0b11100

/-- The switch of `pa_amo_op`: the value to write, from the source register and
the memory value. -/
def AMOFunct.apply : AMOFunct → Word → Word → Option Word
  | swap, src, _ => some src
  | add, src, res => some (src + res)
  | and, src, res => some (src &&& res)
  | or, src, res => some (src ||| res)
  | xor, src, res => some (src ^^^ res)
  | max, src, res => some (if src.slt res then res else src)
  | min, src, res => some (if res.slt src then res else src)
  | maxu, src, res => some (if src < res then res else src)
  | minu, src, res => some (if res < src then res else src)
  | lr, _, _ => none
  | sc, _, _ => none

namespace MMUSys

variable {β : Type} [MMIOBus β]

/-- `pa_amo_op`: whether both accesses went through, and the old value. -/
def paAmoOp (env : MMUEnv) (pa size : Word) (op : AMOFunct) (src : Word) :
    MMUM β (Bool × Word) := do
  let (feedback, buf) ← busRead .amoRead pa size (env.uninit size.toNat)
  if feedback ≠ .ok then pure (false, 0)
  else
    let res := Bytes.extend true size.toNat buf
    match op.apply src res with
    | none => throw .amoOp
    | some to_write =>
        let feedback ← busWrite .amoWrite pa size (Bytes.ofWord size.toNat to_write)
        pure (decide (feedback = .ok), res)

/-- `vaddrAtomicMemOperation`. -/
def vaddrAtomicMemOperation (env : MMUEnv) (start_addr size : Word) (op : AMOFunct) (src : Word) :
    MMUM β (ExecFeedbackCode × Word) := do
  if env.bareData then
    let (amo_fb, dst) ← paAmoOp env start_addr size op src
    pure (if amo_fb then .ok else .storeAccFault, dst)
  else
    match ← pagedAddr env start_addr size .storeMisalign .storePgfault
        (storeCheck env .storePgfault) with
    | .error fault => pure (fault, 0)
    | .ok paddr => do
        let (amo_fb, dst) ← paAmoOp env paddr size op src
        pure (if amo_fb then .ok else .storeAccFault, dst)

/-- The end of `vaddrLoadReserved`: the reservation holds `begin_addr`, the read
is made at `addr`. -/
def reservedRead (env : MMUEnv) (begin_addr addr size : Word) (buffer : List Byte) :
    MMUM β (ExecFeedbackCode × List Byte) := do
  onMMU (modify (RV64SV39MMU.reserve env begin_addr size))
  let r ← busRead .loadReserved addr size buffer
  pure (if r.1 = .ok then .ok else .storeAccFault, r.2)

/-- `vaddrLoadReserved`. -/
def vaddrLoadReserved (env : MMUEnv) (begin_addr size : Word) (buffer : List Byte) :
    MMUM β (ExecFeedbackCode × List Byte) := do
  if env.bareData then reservedRead env begin_addr begin_addr size buffer
  else
    match ← pagedAddr env begin_addr size .storeMisalign .storePgfault
        (loadCheck env .storePgfault .storeAccFault) with
    | .error fault => pure (fault, buffer)
    | .ok paddr => reservedRead env begin_addr paddr size buffer

/-- The reservation does not cover the store-conditional. -/
def reservationLost (env : MMUEnv) (begin_addr size : Word) (m : RV64SV39MMU) : Bool :=
  !m.lr_valid || m.lr_pa != begin_addr || m.lr_size != size || m.lr_hart != env.rvHartID

/-- The end of `vaddrStoreConditional`: the reservation is looked up at
`begin_addr`, the write is made at `addr`.  The second component is `sc_fail`. -/
def conditionalWrite (env : MMUEnv) (begin_addr addr size : Word) (buffer : List Byte)
    (fault : ExecFeedbackCode) : MMUM β (ExecFeedbackCode × Bool) := do
  let s ← get
  if reservationLost env begin_addr size s.mmu then
    onMMU (modify fun m => if env.rvHartID = m.lr_hart then { m with lr_valid := false } else m)
    pure (.ok, true)
  else
    onMMU (modify fun m => { m with lr_valid := false })
    let fb ← busWrite .storeConditional addr size buffer
    pure (if fb = .ok then .ok else fault, false)

/-- `vaddrStoreConditional`. -/
def vaddrStoreConditional (env : MMUEnv) (begin_addr size : Word) (buffer : List Byte) :
    MMUM β (ExecFeedbackCode × Bool) := do
  if env.bareData then conditionalWrite env begin_addr begin_addr size buffer .storeAccFault
  else
    match ← pagedAddr env begin_addr size .storeMisalign .storePgfault
        (storeCheck env .storePgfault) with
    | .error fault => pure (fault, false)
    | .ok paddr => conditionalWrite env begin_addr paddr size buffer .storePgfault

end MMUSys

end MEmu
