import MEmu.Registers

/-!
# Writable masks of the control registers

Each control register has bits that no write may set.  They are written by CSR
instructions, through the machine and the supervisor layout of one register, by
trap entry and return, and by the sampling of the interrupt lines, and all of
these stay within the masks.
-/

namespace MEmu

open BitField (EqOutside)
open RV64Core

/-- Only the bits in `bits` may be set. -/
abbrev OnlyBits (bits : List Nat) (w : Word) : Prop := EqOutside bits 0 w

/-- The bits of the S-mode interrupts. -/
def sIntBits : List Nat := [IntType.sSw, .sTimer, .sExt].map IntType.val

/-- The bits of the six interrupts. -/
def intBits : List Nat := sIntBits ++ [IntType.mSw, .mTimer, .mExt].map IntType.val

/-- The bits of the exceptions that may be delegated. -/
def delegableBits : List Nat := (List.range 16).filter (· ≠ 11)

/-- The bits of the counters. -/
def counterBits : List Nat := [0, 2]

/-- The fields of the status word that are not implemented have their fixed values. -/
structure StatusReserved (s : Word) : Prop where
  blank0 : MStatus.blank0 s = false
  blank1 : MStatus.blank1 s = false
  blank2 : MStatus.blank2 s = false
  blank3 : MStatus.blank3 s = 0
  blank4 : MStatus.blank4 s = 0
  ube : MStatus.ube s = false
  vs : MStatus.vs s = 0
  fs : MStatus.fs s = 0
  xs : MStatus.xs s = 0
  sbe : MStatus.sbe s = false
  mbe : MStatus.mbe s = false
  sd : MStatus.sd s = false
  uxl : MStatus.uxl s = 2
  sxl : MStatus.sxl s = 2

/-- The control registers are within their masks. -/
structure WithinMasks (c : RV64Core) : Prop where
  mideleg : OnlyBits sIntBits c.csrMIntDelegation
  sie : ∀ v, c.csrRead CSRAddr.sie.val = some v → OnlyBits sIntBits v
  mie : OnlyBits intBits c.csrIntEnable
  mip : OnlyBits intBits c.csrIntPending
  medeleg : OnlyBits delegableBits c.csrMExceptionDelegation
  mcounteren : OnlyBits counterBits c.csrMCounterEN
  scounteren : OnlyBits counterBits c.csrSCounterEN
  satp : Satp.mode c.satp = 0 ∨ Satp.mode c.satp = 8
  stvec : TrapVector.mode c.csrSTrapVecBaseAddr ≤ 1
  mtvec : TrapVector.mode c.csrMTrapVecBaseAddr ≤ 1
  status : StatusReserved c.status

/-! ## The writers -/

theorem onlyBits_sIntMask : OnlyBits sIntBits S_MODE_INT_MASK := by decide

theorem onlyBits_intMask : OnlyBits intBits M_MODE_INT_MASK := by decide

/-- A write to the supervisor view of `mie` or `mip`. -/
theorem OnlyBits.writeView {bits : Word} (h : OnlyBits intBits bits) (v : Word) :
    OnlyBits intBits ((bits &&& ~~~S_MODE_INT_MASK) ||| (v &&& S_MODE_INT_MASK)) := by
  have hmask : OnlyBits intBits S_MODE_INT_MASK := by decide
  exact (h.and_left _).or (hmask.and v)

/-- The lines of the devices set no other bits. -/
theorem OnlyBits.sampleInt {pending : Word} (h : OnlyBits intBits pending) (lines : IntStatus) :
    OnlyBits intBits (sampleInt lines pending) :=
  h.trans <| (EqOutside.setBit (i := 11) (by decide) _ _).trans <|
    (EqOutside.setBit (i := 3) (by decide) _ _).trans <|
    (EqOutside.setBit (i := 7) (by decide) _ _).trans <|
    EqOutside.setBit (i := 9) (by decide) _ _

/-- A vector that was made legal is direct or vectored. -/
theorem mode_legalTvec (v : Word) : TrapVector.mode (legalTvec v) ≤ 1 := by
  unfold legalTvec
  split
  · rw [TrapVector.setMode, TrapVector.mode, BitField.get_set_same _ _ (by decide)]
    decide
  · exact BitVec.not_lt.mp ‹_›

/-- A `satp` that was made legal is bare or Sv39. -/
theorem mode_legalSatp (v : Word) :
    Satp.mode (legalSatp v) = 0 ∨ Satp.mode (legalSatp v) = 8 := by
  unfold legalSatp
  split
  · rw [Satp.setMode, Satp.mode, BitField.get_set_same _ _ (by decide)]
    exact .inl rfl
  · rename_i h
    by_cases hzero : Satp.mode v = 0
    · exact .inl hzero
    · exact .inr (not_not.mp fun hne => h ⟨hzero, hne⟩)

/-! ## The status word -/

/-- The bits of the status word that some function of a step writes. -/
def statusBits : List Nat := [1, 3, 5, 7, 8, 11, 12, 17, 18, 19, 20, 21, 22]

namespace StatusReserved

/-- What is not written keeps its value. -/
theorem congr {s s' : Word} (h : StatusReserved s) (hs : EqOutside statusBits s s') :
    StatusReserved s' where
  blank0 := (hs 0 (by decide)).trans h.blank0
  blank1 := (hs 2 (by decide)).trans h.blank1
  blank2 := (hs 4 (by decide)).trans h.blank2
  blank3 := (hs.get (by decide)).trans h.blank3
  blank4 := (hs.get (by decide)).trans h.blank4
  ube := (hs 6 (by decide)).trans h.ube
  vs := (hs.get (by decide)).trans h.vs
  fs := (hs.get (by decide)).trans h.fs
  xs := (hs.get (by decide)).trans h.xs
  sbe := (hs 36 (by decide)).trans h.sbe
  mbe := (hs 37 (by decide)).trans h.mbe
  sd := (hs 63 (by decide)).trans h.sd
  uxl := (hs.get (by decide)).trans h.uxl
  sxl := (hs.get (by decide)).trans h.sxl

theorem reset : StatusReserved (MStatus.setUxl 2 (MStatus.setSxl 2 0)) := by
  constructor <;> decide

/-- The fields that the exit path asserts to be zero. -/
theorem statusBlank {s : Word} (h : StatusReserved s) : RV64Core.statusBlank s = true := by
  rw [RV64Core.statusBlank, h.blank0, h.blank1, h.blank2, h.blank3, h.blank4]
  rfl

end StatusReserved

/-- What is not written is asserted alike. -/
theorem statusBlank_congr {s s' : Word} (hs : EqOutside statusBits s s') :
    RV64Core.statusBlank s' = RV64Core.statusBlank s := by
  have h0 : MStatus.blank0 s' = MStatus.blank0 s := hs 0 (by decide)
  have h1 : MStatus.blank1 s' = MStatus.blank1 s := hs 2 (by decide)
  have h2 : MStatus.blank2 s' = MStatus.blank2 s := hs 4 (by decide)
  have h3 : MStatus.blank3 s' = MStatus.blank3 s := hs.get (by decide)
  have h4 : MStatus.blank4 s' = MStatus.blank4 s := hs.get (by decide)
  rw [RV64Core.statusBlank, RV64Core.statusBlank, h0, h1, h2, h3, h4]

/-- A field of `mstatus` that is written. -/
theorem eqOutside_statusBit {i : Nat} (hi : i ∈ statusBits) (b : Bool) (s : Word) :
    EqOutside statusBits s (BitField.setBit i b s) := .setBit hi b s

theorem eqOutside_setMpp (v : BitVec 2) (s : Word) :
    EqOutside statusBits s (MStatus.setMpp v s) := .set (by decide) v s

/-- `MPRV` is cleared or left. -/
theorem eqOutside_mprv (p : Prop) [Decidable p] (s : Word) :
    EqOutside statusBits s (if p then MStatus.setMprv false s else s) := by
  split
  · exact eqOutside_statusBit (by decide) _ _
  · exact .refl s

/-- The entry to S-mode writes fields of the status only. -/
theorem enterSMode_status (cause tval : Word) (c : RV64Core) :
    EqOutside statusBits c.status (enterSMode cause tval c).status :=
  (eqOutside_statusBit (i := 5) (by decide) _ _).trans <|
    (eqOutside_statusBit (i := 1) (by decide) _ _).trans <|
    eqOutside_statusBit (i := 8) (by decide) _ _

/-- The entry to M-mode writes fields of the status only. -/
theorem enterMMode_status (cause tval : Word) (c : RV64Core) :
    EqOutside statusBits c.status (enterMMode cause tval c).status :=
  (eqOutside_statusBit (i := 7) (by decide) _ _).trans <|
    (eqOutside_statusBit (i := 3) (by decide) _ _).trans <| eqOutside_setMpp _ _

/-- So does a trap. -/
theorem trapped_status (cause tval : Word) (c : RV64Core) :
    EqOutside statusBits c.status (c.trapped cause tval).status := by
  rcases c.trapped_cases cause tval with ⟨-, h⟩ | ⟨-, h⟩ <;> rw [h]
  · exact enterSMode_status cause tval _
  · exact enterMMode_status cause tval _

/-- So does `mret`. -/
theorem returnM_status (c : RV64Core) : EqOutside statusBits c.status c.returnM.status :=
  (eqOutside_statusBit (i := 3) (by decide) _ _).trans <|
    (eqOutside_statusBit (i := 7) (by decide) _ _).trans <|
    (eqOutside_mprv _ _).trans <| eqOutside_setMpp _ _

/-- So does `sret`. -/
theorem returnS_status (c : RV64Core) : EqOutside statusBits c.status c.returnS.status :=
  (eqOutside_statusBit (i := 1) (by decide) _ _).trans <|
    (eqOutside_statusBit (i := 5) (by decide) _ _).trans <|
    (eqOutside_mprv _ _).trans <| eqOutside_statusBit (i := 8) (by decide) _ _

/-- A write of `mstatus` reaches its fields only. -/
theorem writeMStatus_status (v s : Word) : EqOutside statusBits s (writeMStatus v s) :=
  (eqOutside_statusBit (i := 1) (by decide) _ _).trans <|
    (eqOutside_statusBit (i := 3) (by decide) _ _).trans <|
    (eqOutside_statusBit (i := 5) (by decide) _ _).trans <|
    (eqOutside_statusBit (i := 7) (by decide) _ _).trans <|
    (eqOutside_statusBit (i := 8) (by decide) _ _).trans <|
    (eqOutside_setMpp _ _).trans <|
    (eqOutside_statusBit (i := 17) (by decide) _ _).trans <|
    (eqOutside_statusBit (i := 18) (by decide) _ _).trans <|
    (eqOutside_statusBit (i := 19) (by decide) _ _).trans <|
    (eqOutside_statusBit (i := 20) (by decide) _ _).trans <|
    (eqOutside_statusBit (i := 21) (by decide) _ _).trans <|
    eqOutside_statusBit (i := 22) (by decide) _ _

/-- A write of `sstatus` reaches its fields only. -/
theorem writeSStatus_status (v s : Word) : EqOutside statusBits s (writeSStatus v s) :=
  (eqOutside_statusBit (i := 1) (by decide) _ _).trans <|
    (eqOutside_statusBit (i := 5) (by decide) _ _).trans <|
    (eqOutside_statusBit (i := 8) (by decide) _ _).trans <|
    (eqOutside_statusBit (i := 18) (by decide) _ _).trans <|
    eqOutside_statusBit (i := 19) (by decide) _ _

/-! ## The masks through a step -/

namespace WithinMasks

/-- What `sie` shows is within the bits of S-mode. -/
theorem sie_view {c : RV64Core} (v : Word) (h : c.csrRead CSRAddr.sie.val = some v) :
    OnlyBits sIntBits v := by
  rw [csrRead, CSRAddr.ofVal_val, Option.bind_some, csrReadCase, Option.some.injEq] at h
  rw [← h]
  exact onlyBits_sIntMask.and _

theorem reset (c : RV64Core) : WithinMasks c.reset := by
  have hsatp : Satp.mode 0 = 0 := by decide
  have htvec : TrapVector.mode 0 ≤ 1 := by decide
  have hzero : ∀ bits, OnlyBits bits 0 := fun bits => .refl 0
  exact ⟨hzero _, sie_view, hzero _, hzero _, hzero _, hzero _, hzero _, .inl hsatp, htvec, htvec,
    .reset⟩

/-- Only the status word differs. -/
theorem congr {c c' : RV64Core} (h : WithinMasks c) (hs : EqOutside statusBits c.status c'.status)
    (hregs : [c'.csrMIntDelegation, c'.csrIntEnable, c'.csrIntPending, c'.csrMExceptionDelegation,
        c'.csrMCounterEN, c'.csrSCounterEN, c'.satp, c'.csrSTrapVecBaseAddr, c'.csrMTrapVecBaseAddr]
      = [c.csrMIntDelegation, c.csrIntEnable, c.csrIntPending, c.csrMExceptionDelegation,
        c.csrMCounterEN, c.csrSCounterEN, c.satp, c.csrSTrapVecBaseAddr, c.csrMTrapVecBaseAddr]) :
    WithinMasks c' := by
  simp only [List.cons.injEq, and_true] at hregs
  obtain ⟨h₁, h₂, h₃, h₄, h₅, h₆, h₇, h₈, h₉⟩ := hregs
  exact ⟨h₁ ▸ h.mideleg, sie_view, h₂ ▸ h.mie, h₃ ▸ h.mip, h₄ ▸ h.medeleg, h₅ ▸ h.mcounteren,
    h₆ ▸ h.scounteren, h₇ ▸ h.satp, h₈ ▸ h.stvec, h₉ ▸ h.mtvec, h.status.congr hs⟩

theorem trapped {c : RV64Core} (h : WithinMasks c) (cause tval : Word) :
    WithinMasks (c.trapped cause tval) := by
  rcases c.trapped_cases cause tval with ⟨-, ht⟩ | ⟨-, ht⟩ <;> rw [ht]
  · exact h.congr (enterSMode_status cause tval c) rfl
  · exact h.congr (enterMMode_status cause tval c) rfl

theorem csrWrite {c c' : RV64Core} {a : CSRAddr} {v : Word} (h : WithinMasks c)
    (hmtvec : a = .mtvec → TrapVector.mode v ≤ 1) (hw : c.csrWriteCase v a = some c') :
    WithinMasks c' := by
  have hexc : OnlyBits delegableBits S_MODE_EXC_MASK := by decide
  have hcounter : OnlyBits counterBits COUNTER_MASK := by decide
  cases a <;> simp only [csrWriteCase, reduceCtorEq, Option.some.injEq] at hw
  case satp =>
    split at hw <;> cases hw
    exact { h with satp := mode_legalSatp v, sie := sie_view }
  all_goals subst hw
  case mstatus => exact h.congr (writeMStatus_status v c.status) rfl
  case sstatus => exact h.congr (writeSStatus_status v c.status) rfl
  case medeleg => exact { h with medeleg := hexc.and v, sie := sie_view }
  case mideleg => exact { h with mideleg := onlyBits_sIntMask.and v, sie := sie_view }
  case mie => exact { h with mie := onlyBits_intMask.and v, sie := sie_view }
  case sie => exact { h with mie := h.mie.writeView v, sie := sie_view }
  case mip => exact { h with mip := onlyBits_intMask.and v, sie := sie_view }
  case sip => exact { h with mip := h.mip.writeView v, sie := sie_view }
  case mtvec => exact { h with mtvec := hmtvec rfl, sie := sie_view }
  case stvec => exact { h with stvec := mode_legalTvec v, sie := sie_view }
  case mcounteren => exact { h with mcounteren := hcounter.and v, sie := sie_view }
  case scounteren => exact { h with scounteren := hcounter.and v, sie := sie_view }
  all_goals exact h.congr (.refl _) rfl

/-- Every function of the step stays within the masks. -/
theorem invariant : CoreInvariant (fun _ _ => True) WithinMasks where
  beginStep h := { h with mip := OnlyBits.sampleInt h.mip _, sie := sie_view }
  trapped h cause tval := h.trapped cause tval
  retire h _ _ := h.congr (.refl _) rfl
  setGPR {c} h rd value := by
    rw [setGPR_eq]
    exact h.congr (.refl _) rfl
  setPC h _ := h.congr (.refl _) rfl
  csrWrite h _ hmtvec hw := h.csrWrite hmtvec hw
  returnM {c} h := h.congr (returnM_status c) rfl
  returnS {c} h := h.congr (returnS_status c) rfl

end WithinMasks

section Run

variable {β : Type} [MMIOBus β]

/-- Every core that is reached is within the masks. -/
theorem CoreReach.withinMasks {P : Machine β → Prop} {c : RV64Core} (h : CoreReach P c) :
    WithinMasks c :=
  WithinMasks.invariant.reach .reset (fun _ _ h => h.congr (.refl _) rfl)
    (fun _ _ _ _ _ _ _ _ => True.intro) h

/-- In every state reached from reset, the control registers are within their masks. -/
theorem masks_kept {P : Machine β → Prop} {c : RV64Core} (h : CoreReach P c) : WithinMasks c :=
  h.withinMasks

end Run

theorem masks_kept_visitUser :
    CoreReach (fun _ : Machine (MEmuMMIOBus MMIOMem) => True) visitedUser ∧
      visitedUser.csrMIntDelegation = 0x222 ∧ WithinMasks visitedUser := by
  have hr : CoreReach (fun _ : Machine (MEmuMMIOBus MMIOMem) => True) visitedUser :=
    visitUser_returns.reach fun _ _ => trivial
  exact ⟨hr, by decide +kernel, masks_kept hr⟩

end MEmu
