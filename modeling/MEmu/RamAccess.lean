import MEmu.AmoWidth
import MEmu.Refusals
import MEmu.TrapEntry
import MEmu.Masks
import MEmu.Lib.RiscVMem

/-!
# Loads and stores on RAM

With translation off a load and a store reach the bus at their own address, and on RAM the bus
copies bytes of the host.  The specification has them as integers of one, two, four and eight
bytes in memory.  The bus may have devices of other kinds beside the RAM, and none of them sees
the access.
-/

namespace MEmu

open RiscV (MemInst Holds Reg)
open Run (Sat)

/-! ## The instructions -/

/-- The access that an instruction asks for. -/
def accessOf (x : Reg → Word) (i : MemInst) : MemOp :=
  match i with
  | .load op _ _ _ => .load (i.addr x) (BitVec.ofNat 64 op.bytes) op.signed
  | .store op rs2 _ _ => .store (i.addr x) (BitVec.ofNat 64 op.bytes) (x rs2)

/-- The register that the value of the access goes to. -/
def destOf : MemInst → Reg
  | .load _ rd _ _ => rd
  | .store _ _ _ _ => 0

theorem loadCase_funct3 (op : RiscV.LoadOp) :
    loadCase op.funct3 = some (BitVec.ofNat 64 op.bytes, op.signed) := by
  cases op <;> rfl

theorem storeCase_funct3 (op : RiscV.StoreOp) :
    storeCase op.funct3 = some (BitVec.ofNat 64 op.bytes) := by
  cases op <;> rfl

/-- The access of a decoded instruction. -/
theorem memOpOf_encode (i : MemInst) (c : RV64Core) :
    memOpOf i.encode c = some (accessOf c.GPR i, destOf i) := by
  have hlong : isCompressedInst i.encode = false := isCompressedInst_low i.low_encode
  rw [memOpOf, hlong, if_neg Bool.false_ne_true]
  cases i with
  | load op rd rs1 imm =>
      obtain ⟨hop, hrd, hf3, hrs1, himm⟩ := RiscV.fields_iType rs1 rd op.funct3 0b0000011 imm
      have hload : RV64IOpCode.ofVal (RVInst.opcode _) = some .load := ofVal_opcode hop
      simp only [MemInst.encode, memOp32, hload, loadOp, RVInst.funct3, hf3, loadCase_funct3,
        Option.map_some, RVInst.rd, RVInst.rs1, RVInst.imm12, hrd, hrs1, himm, accessOf, destOf,
        MemInst.addr]
  | store op rs2 rs1 imm =>
      obtain ⟨hop, -, hf3, hrs1, hrs2, -⟩ := RiscV.fields_sType rs2 rs1 op.funct3 0b0100011 imm
      have hstore : RV64IOpCode.ofVal (RVInst.opcode _) = some .store := ofVal_opcode hop
      simp only [MemInst.encode, memOp32, hstore, storeOp, RVInst.funct3, hf3, storeCase_funct3,
        Option.map_some, RVInst.rs1, RVInst.rs2, hrs1, hrs2, RVInst.immS_sType, accessOf, destOf,
        MemInst.addr]

theorem bytes_cases (i : MemInst) : i.bytes = 1 ∨ i.bytes = 2 ∨ i.bytes = 4 ∨ i.bytes = 8 := by
  cases i with
  | load op => cases op <;> simp [MemInst.bytes, RiscV.LoadOp.bytes]
  | store op => cases op <;> simp [MemInst.bytes, RiscV.StoreOp.bytes]

theorem toNat_bytes (i : MemInst) : (BitVec.ofNat 64 i.bytes).toNat = i.bytes := by
  rcases bytes_cases i with h | h | h | h <;> rw [h] <;> rfl

theorem addr_accessOf (x : Reg → Word) (i : MemInst) : (accessOf x i).addr = i.addr x := by
  cases i <;> rfl

theorem size_accessOf (x : Reg → Word) (i : MemInst) :
    (accessOf x i).size = BitVec.ofNat 64 i.bytes := by
  cases i <;> rfl

/-- The test of the source is for alignment. -/
theorem aligned_iff_umod (x : Reg → Word) (i : MemInst) :
    (accessOf x i).addr % (accessOf x i).size = 0 ↔ i.Aligned x := by
  rw [addr_accessOf, size_accessOf, ← BitVec.toNat_inj, BitVec.toNat_umod, toNat_bytes,
    MemInst.Aligned, Nat.dvd_iff_mod_eq_zero]
  rfl

/-! ## RAM on a bus -/

section Ram

variable {δ : Type}

/-- The `n` bytes at `addr` lie in the RAM `ram` of the device `h` that the bus finds for it. -/
structure InRAM (b : MEmuMMIOBus (MMIOMem ⊕ δ)) (h : DevHandle) (ram : MMIOMem) (addr : Word)
    (n : Nat) : Prop where
  found : (b.findDevAccordingToAddr addr).1 = some h
  dev : (b.obj h).dev = .inl ram
  inside : (addr - (b.obj h).devBaseAddr).toNat + n ≤ ram.memorySize.toNat

/-- The device `h` becomes `d`, and nothing else changes but what the bus remembers of its
lookups. -/
structure OnlyDev (h : DevHandle) (d : MMIODev (MMIOMem ⊕ δ))
    (s s' : MMUSys (MEmuMMIOBus (MMIOMem ⊕ δ))) : Prop where
  mmu : s'.mmu = s.mmu
  mmioDevs : s'.sysBus.mmioDevs = s.sysBus.mmioDevs
  obj : ∀ k, s'.sysBus.obj k = if k = h then d else s.sysBus.obj k

variable [MMIODevI δ] {b : MEmuMMIOBus (MMIOMem ⊕ δ)} {h : DevHandle} {ram : MMIOMem}
  {addr : Word}

/-- A read of RAM, among devices of other kinds. -/
theorem InRAM.run_read (size : Word) (hin : InRAM b h ram addr size.toNat)
    (buffer : List Byte) :
    (MMIOBus.paddrReadBuffer addr size buffer).run b
      = .ok (.ok, ram.bytesAt (addr - (b.obj h).devBaseAddr) size)
          (b.findDevAccordingToAddr addr).2 := by
  have hobj := b.findDev_obj addr
  have hinside : ram.inBuffer (addr - (b.obj h).devBaseAddr) size := hin.inside
  have hcall := run_readBuffer_inl δ
    ((RAMBus.mem_readBuffer ram (addr - (b.obj h).devBaseAddr) size buffer).trans (if_pos hinside))
  rw [← hin.dev] at hcall
  refine (MEmuMMIOBus.run_paddrReadBuffer addr size buffer b).trans ?_
  rw [hin.found]
  generalize (b.findDevAccordingToAddr addr).2 = b' at hobj ⊢
  have hself := b'.setObj_self h
  rw [← hobj] at hcall
  simp only [EStateM.run_bind, MEmuMMIOBus.run_callDev, ← hobj, hcall, hself, EStateM.run_pure]

/-- A write of RAM, among devices of other kinds. -/
theorem InRAM.run_write (size : Word) (hin : InRAM b h ram addr size.toNat)
    (buffer : List Byte) :
    (MMIOBus.paddrWriteBuffer addr size buffer).run b
      = .ok .ok ((b.findDevAccordingToAddr addr).2.setObj h { b.obj h with
          dev := .inl (ram.store (addr - (b.obj h).devBaseAddr) size buffer) }) := by
  have hobj := b.findDev_obj addr
  have hinside : ram.inBuffer (addr - (b.obj h).devBaseAddr) size := hin.inside
  have hcall := run_writeBuffer_inl δ
    ((RAMBus.mem_writeBuffer ram (addr - (b.obj h).devBaseAddr) size buffer).trans
      (if_pos hinside))
  rw [← hin.dev] at hcall
  refine (MEmuMMIOBus.run_paddrWriteBuffer addr size buffer b).trans ?_
  rw [hin.found]
  generalize (b.findDevAccordingToAddr addr).2 = b' at hobj ⊢
  simp only [EStateM.run_bind, MEmuMMIOBus.run_callDev, hobj, hcall, EStateM.run_pure]

end Ram

/-! ## The accesses -/

section Access

variable {δ : Type} [MMIODevI δ] {env : MMUEnv} {s : MMUSys (MEmuMMIOBus (MMIOMem ⊕ δ))}
  {h : DevHandle} {ram : MMIOMem} {i : MemInst} {x : Reg → Word}

/-- The access of a misaligned instruction. -/
theorem run_perform_misaligned {β : Type} [MMIOBus β] (env : MMUEnv) (s : MMUSys β)
    (hmis : ¬i.Aligned x) :
    ((accessOf x i).perform env).run s = .ok (.error (accessOf x i).misalign) s := by
  have hcheck : (accessOf x i).checksAlign = true := by cases i <;> rfl
  rw [MemOp.perform_eq, MemOp.path, if_pos ⟨hcheck, fun h => hmis ((aligned_iff_umod x i).mp h)⟩]
  rfl

/-- An aligned access with translation off is made at its own address. -/
theorem perform_aligned {β : Type} [MMIOBus β] (hbare : env.bareData = true) (hal : i.Aligned x) :
    (accessOf x i).perform (β := β) env = (accessOf x i).access env true (i.addr x) := by
  rw [MemOp.perform_eq, MemOp.path,
    if_neg fun h => h.2 ((aligned_iff_umod x i).mpr hal), if_pos hbare, addr_accessOf]

/-- The bytes of a read are those of the integer that the memory holds. -/
theorem holds_toWord (ram : MMIOMem) (off : Word) {n : Nat} (hn : n ≤ 8) :
    Holds ram.memData off.toNat
      ((Bytes.toWord (ram.bytesAt off (BitVec.ofNat 64 n))).setWidth (8 * n)) := by
  intro j hj
  have hsize : (BitVec.ofNat 64 n).toNat = n := by
    rw [BitVec.toNat_ofNat]
    omega
  rw [Bytes.byte_toWord _ hn hj, MMIOMem.bytesAt, hsize]
  simp [List.getD, hj]

/-- A store of the bytes of a word is the integer written. -/
theorem store_ofWord (ram : MMIOMem) (off v : Word) {n : Nat} (hn : n ≤ 8) :
    ram.store off (BitVec.ofNat 64 n) (Bytes.ofWord n v)
      = { ram with memData := RiscV.write ram.memData off.toNat (v.setWidth (8 * n)) } := by
  have hsize : (BitVec.ofNat 64 n).toNat = n := by
    rw [BitVec.toNat_ofNat]
    omega
  have hdata : (fun i => if off.toNat ≤ i ∧ i < off.toNat + n then
        (Bytes.ofWord n v).getD (i - off.toNat) 0 else ram.memData i)
      = RiscV.write ram.memData off.toNat (v.setWidth (8 * n)) := by
    funext i
    by_cases hin : off.toNat ≤ i ∧ i < off.toNat + n
    · rw [RiscV.write, if_pos hin, if_pos hin, Bytes.getD_ofWord (by omega)]
    · rw [RiscV.write, if_neg hin, if_neg hin]
  rw [MMIOMem.store, hsize, hdata]

/-- A load from RAM. -/
theorem load_ram (env : MMUEnv) (op : RiscV.LoadOp) {addr : Word}
    (hin : InRAM s.sysBus h ram addr op.bytes) :
    Sat s ((MemOp.load addr (BitVec.ofNat 64 op.bytes) op.signed).access env true addr)
      (fun r s' => (∃ v, Holds ram.memData (addr - (s.sysBus.obj h).devBaseAddr).toNat v ∧
        r = .ok (op.extend v)) ∧ OnlyDev h (s.sysBus.obj h) s s') (fun _ _ => False) := by
  have hsize : (BitVec.ofNat 64 op.bytes).toNat = op.bytes := by cases op <;> rfl
  have hread := InRAM.run_read (BitVec.ofNat 64 op.bytes) (hsize ▸ hin)
  refine .bind (busCall_sat (fun r b hr => .pure ?_) fun e b hr => ?_)
  · rw [hread] at hr
    cases hr
    rw [hsize]
    refine ⟨⟨_, holds_toWord ram _ (by cases op <;> decide), rfl⟩,
      ⟨rfl, MEmuMMIOBus.findDev_mmioDevs addr s.sysBus, fun k => ?_⟩⟩
    rw [MEmuMMIOBus.findDev_obj]
    split
    · rw [‹k = h›]
    · rfl
  · rw [hread] at hr
    cases hr

/-- A store to RAM. -/
theorem store_ram (env : MMUEnv) (op : RiscV.StoreOp) {addr : Word} (data : Word)
    (hin : InRAM s.sysBus h ram addr op.bytes) :
    Sat s ((MemOp.store addr (BitVec.ofNat 64 op.bytes) data).access env true addr)
      (fun r s' => r = .ok 0 ∧ OnlyDev h { s.sysBus.obj h with
        dev := .inl { ram with
          memData := RiscV.write ram.memData (addr - (s.sysBus.obj h).devBaseAddr).toNat
            (data.setWidth (8 * op.bytes)) } } s s') (fun _ _ => False) := by
  have hsize : (BitVec.ofNat 64 op.bytes).toNat = op.bytes := by cases op <;> rfl
  have hwrite := InRAM.run_write (BitVec.ofNat 64 op.bytes) (hsize ▸ hin)
    (Bytes.ofWord op.bytes data)
  rw [store_ofWord ram _ data (by cases op <;> decide)] at hwrite
  refine .bind (busCall_sat (fun fb b hr => .pure ?_) fun e b hr => ?_)
  · rw [hsize, hwrite] at hr
    cases hr
    refine ⟨rfl, ⟨rfl, MEmuMMIOBus.findDev_mmioDevs addr s.sysBus, fun k => ?_⟩⟩
    show (if k = h then _ else _) = _
    rw [MEmuMMIOBus.findDev_obj]
  · rw [hsize, hwrite] at hr
    cases hr

end Access

/-! ## The step -/

section Step

variable {β : Type} [MMIOBus β] {m : Machine β}

/-- The step from `m` runs into `m'`, and completes there if the reserved fields of the status
word are zero, as they are in every reachable state. -/
def StepsInto (m m' : Machine β) : Prop :=
  stepCoreAPI.run m
    = if RV64Core.statusBlank m.core.status = true then .ok .ok m' else .error .statusBlank m'

/-- The core at the next instruction, with `value` in `rd`, and otherwise as the step began. -/
structure Advances (m : Machine β) (rd : Reg) (value : Word) (c' : RV64Core) : Prop where
  gpr : ∀ r, c'.GPR r = if r ≠ 0 ∧ r = rd then value else m.core.GPR r
  pc : c'.currentProgramCounter = m.core.currentProgramCounter + 4
  minstret : c'.minstret = m.core.minstret + 1
  trapLog : c'.trapLog = []
  rest : c' = { m.begun with
    GPR := c'.GPR
    currentProgramCounter := c'.currentProgramCounter
    minstret := c'.minstret }

/-- The core at the end of a step that raised an exception. -/
structure Raises (m : Machine β) (cause : ExecFeedbackCode) (tval : Word) (c' : RV64Core) :
    Prop where
  trapLog : c'.trapLog = [(Cause.exception cause, tval)]
  mode : c'.nextPrivMode = (m.begun.trapMode (Cause.exception cause)).priv
  regs : (m.begun.trapMode (Cause.exception cause)).regs c'
    = ⟨tval, Cause.exception cause, m.core.currentProgramCounter,
        ((m.begun.trapMode (Cause.exception cause)).regs m.core).tvec⟩
  gpr : c'.GPR = m.core.GPR

omit [MMIOBus β] in
theorem advances_setGPR (rd : Reg) (value : Word) :
    Advances m rd value ((m.begun.setGPR rd value).retire false .plain) := by
  by_cases hrd : rd = 0
  · rw [RV64Core.setGPR, if_pos hrd]
    refine ⟨fun r => (if_neg ?_).symm, rfl, rfl, rfl, rfl⟩
    rintro ⟨hr, rfl⟩
    exact hr hrd
  · rw [RV64Core.setGPR, if_neg hrd]
    refine ⟨fun r => ?_, rfl, rfl, rfl, rfl⟩
    show (if r = rd then _ else _) = _
    by_cases hr : r = rd
    · rw [if_pos hr, if_pos ⟨hr ▸ hrd, hr⟩]
    · rw [if_neg hr, if_neg fun h => hr h.2]
      rfl

omit [MMIOBus β] in
theorem raises_trapped (cause : ExecFeedbackCode) (tval : Word) (comp : Bool)
    (flags : ExecFlags) :
    Raises m cause tval ((m.begun.trapped (Cause.exception cause) tval).retire comp flags) := by
  rcases m.begun.trapped_cases (Cause.exception cause) tval with ⟨hs, h⟩ | ⟨hm, h⟩
  · have hmode : m.begun.trapMode (Cause.exception cause) = .s := if_pos hs
    rw [h]
    constructor
    · rfl
    · rw [hmode]
      rfl
    · rw [hmode]
      rfl
    · rfl
  · have hmode : m.begun.trapMode (Cause.exception cause) = .m :=
      if_neg (by rw [hm]; exact Bool.false_ne_true)
    rw [h]
    constructor
    · rfl
    · rw [hmode]
      rfl
    · rw [hmode]
      rfl
    · rfl

/-- Neither end of an access changes a reserved field of the status word. -/
theorem statusBlank_endCore (op : MemOp) (rd : Reg) (c : RV64Core)
    (r : Except ExecFeedbackCode Word) :
    RV64Core.statusBlank (op.endCore rd c r).status = RV64Core.statusBlank c.status := by
  cases r with
  | ok value =>
      rw [MemOp.endCore, RV64Core.setGPR]
      split <;> rfl
  | error cause => exact statusBlank_congr (trapped_status _ _ c)

/-- A step whose access returns. -/
theorem stepsInto_of_memOp {s s' : MMUSys β} {inst : BitVec 32} {op : MemOp} {rd : Reg}
    {r : Except ExecFeedbackCode Word} (hf : fetchInst.run m = .ok (some inst) ⟨m.begun, s⟩)
    (hop : memOpOf inst m.begun = some (op, rd))
    (hr : (op.perform m.begun.mmuEnv).run s = .ok r s') :
    StepsInto m ⟨(op.endCore rd m.begun r).retire (isCompressedInst inst) .plain, s'⟩ := by
  have hexit := run_stepExit (c := op.endCore rd m.begun r) inst (isCompressedInst inst) .plain
    fun hill => absurd hill Bool.false_ne_true
  have hblank : RV64Core.statusBlank
      ((op.endCore rd m.begun r).retire (isCompressedInst inst) .plain).status
        = RV64Core.statusBlank m.core.status := statusBlank_endCore op rd m.begun r
  rw [atExit_legal rfl, hblank] at hexit
  rw [StepsInto, run_stepCoreAPI_of_memOp hf hop, hr]
  dsimp only
  split
  · next hb => exact run_onCore_ok (hexit.trans (if_pos hb))
  · next hb => exact run_onCore_error (hexit.trans (if_neg hb))

end Step

/-! ## Exactness -/

section Exact

variable {δ : Type} [MMIODevI δ]

/-- The exception at a misaligned address. -/
def misalignOf : MemInst → ExecFeedbackCode
  | .load .. => .loadMisalign
  | .store .. => .storeMisalign

theorem misalign_accessOf (x : Reg → Word) (i : MemInst) :
    (accessOf x i).misalign = misalignOf i := by
  cases i <;> rfl

/-- What the step from `m` leaves in `m'` where it has fetched `i`, has `s` as memory and accesses
the RAM `ram` of device `h`. -/
def RamExact (i : MemInst) (h : DevHandle) (ram : MMIOMem)
    (m : Machine (MEmuMMIOBus (MMIOMem ⊕ δ))) (s : MMUSys (MEmuMMIOBus (MMIOMem ⊕ δ)))
    (m' : Machine (MEmuMMIOBus (MMIOMem ⊕ δ))) : Prop :=
  let off := (i.addr m.core.GPR - (s.sysBus.obj h).devBaseAddr).toNat
  match i with
  | .load op rd _ _ =>
      (∃ v, Holds ram.memData off v ∧ Advances m rd (op.extend v) m'.core) ∧
        OnlyDev h (s.sysBus.obj h) s m'.mem
  | .store op rs2 _ _ =>
      Advances m 0 0 m'.core ∧
        ∃ data, Holds data off ((m.core.GPR rs2).setWidth (8 * op.bytes)) ∧
          (∀ k, k < off ∨ off + op.bytes ≤ k → data k = ram.memData k) ∧
          OnlyDev h { s.sysBus.obj h with dev := .inl { ram with memData := data } } s m'.mem

/-- The access of an aligned instruction to RAM. -/
theorem access_ram (i : MemInst) {m : Machine (MEmuMMIOBus (MMIOMem ⊕ δ))}
    {s : MMUSys (MEmuMMIOBus (MMIOMem ⊕ δ))} {h : DevHandle} {ram : MMIOMem}
    (hin : InRAM s.sysBus h ram (i.addr m.core.GPR) i.bytes) :
    Sat s ((accessOf m.core.GPR i).access m.begun.mmuEnv true (i.addr m.core.GPR))
      (fun r s' => ∃ value, r = .ok value ∧
        RamExact i h ram m s
          ⟨(m.begun.setGPR (destOf i) value).retire false .plain, s'⟩) (fun _ _ => False) := by
  cases i with
  | load op rd rs1 imm =>
      refine (load_ram m.begun.mmuEnv op hin).mono (fun r s' hr => ?_) fun _ _ hr => hr
      obtain ⟨⟨v, hv, rfl⟩, hdev⟩ := hr
      exact ⟨_, rfl, ⟨v, hv, advances_setGPR rd _⟩, hdev⟩
  | store op rs2 rs1 imm =>
      refine (store_ram m.begun.mmuEnv op (m.core.GPR rs2) hin).mono (fun r s' hr => ?_)
        fun _ _ hr => hr
      obtain ⟨rfl, hdev⟩ := hr
      exact ⟨_, rfl, advances_setGPR 0 0, _, RiscV.write_holds _ _ _,
        fun k hk => RiscV.write_outside hk, hdev⟩

/-- What a load and a store do: they are exact on RAM, and raise their exception at a misaligned
address. -/
theorem loads_stores_exact (i : MemInst) {m m₁ : Machine (MEmuMMIOBus (MMIOMem ⊕ δ))}
    (hf : fetchInst.run m = .ok (some i.encode) m₁) :
    Quiet m.clearLogs.mem m₁.mem ∧
      (¬i.Aligned m.core.GPR → ∃ m', StepsInto m m' ∧
        Raises m (misalignOf i) (i.addr m.core.GPR) m'.core ∧
        m'.mem = m₁.mem) ∧
      (i.Aligned m.core.GPR → m.begun.mmuEnv.bareData = true →
        ∀ h ram, InRAM m₁.mem.sysBus h ram (i.addr m.core.GPR) i.bytes →
          ∃ m', StepsInto m m' ∧ RamExact i h ram m m₁.mem m') := by
  obtain ⟨s, hs, rfl⟩ := fetchInst_ok hf
  have hop := memOpOf_encode i m.begun
  have hlong : isCompressedInst i.encode = false := isCompressedInst_low i.low_encode
  refine ⟨hs.quiet, fun hmis => ?_, fun hal hbare h ram hin => ?_⟩
  · have hrun := run_perform_misaligned (i := i) (x := m.core.GPR) m.begun.mmuEnv s hmis
    refine ⟨_, stepsInto_of_memOp hf hop hrun, ?_, rfl⟩
    rw [misalign_accessOf, MemOp.endCore, addr_accessOf]
    exact raises_trapped (misalignOf i) _ _ _
  · have haccess := access_ram i hin
    rw [← perform_aligned hbare hal] at haccess
    obtain ⟨r, s', hr, value, rfl, hexact⟩ := haccess.exists_ok
    have hstep := stepsInto_of_memOp hf hop hr
    rw [hlong] at hstep
    exact ⟨_, hstep, hexact⟩

end Exact

/-- `lb a0, 4(a1)` at 0 with zero in `a1`, before a negative byte, and the serial port at 4096. -/
def loadsSign : Machine (MEmuMMIOBus (MMIOMem ⊕ CemuUartAdapter)) :=
  let ram := MMIOMem.ofBytes [0x03, 0x85, 0x45, 0x00, 0x80, 0x00, 0x00, 0x00]
  { core := { (default : RV64Core) with nextPrivMode := .mMode }
    mem := { loadsPastRegs.mem with
      sysBus :=
        { loadsPastRegs.mem.sysBus with
          obj := fun h =>
            if h = 0 then { ram with dev := .inl ram.dev } else loadsPastRegs.mem.sysBus.obj h } } }

theorem loads_stores_exact_lb :
    ∃ m', StepsInto loadsSign m' ∧ m'.core.GPR 10 = 0xffffffffffffff80 := by
  have hf : fetchInst.run loadsSign
      = .ok (some (MemInst.load .lb 10 11 4).encode) (Run.final (fetchInst.run loadsSign)) := by
    rfl
  obtain ⟨-, -, haligned⟩ := loads_stores_exact (.load .lb 10 11 4) hf
  obtain ⟨m', hstep, ⟨v, hv, hadv⟩, -⟩ := haligned (by decide) (by decide) 0 _
    ⟨by rfl, by rfl, by decide⟩
  have hbyte : Holds (n := 1) (MMIOMem.ofBytes [0x03, 0x85, 0x45, 0x00, 0x80, 0, 0, 0]).dev.memData
      4 (0x80 : BitVec 8) := by decide
  refine ⟨m', hstep, ?_⟩
  rw [hadv.gpr, if_pos (by decide), hv.unique hbyte]
  decide

end MEmu
