import MEmu.TrapEntry
import MEmu.Retirement
import MEmu.Masks

/-!
# Trap return

`mret` and `sret` read what trap entry saved.  After a trap the step runs to its exit, and the
next one switches the mode and executes the return.  The interrupt lines and the memory may
change in between.
-/

namespace MEmu

open BitField (EqOutside)
open Run (Sat)

/-! ## What a return does -/

namespace TrapMode

/-- The instruction that returns from the mode. -/
def ret : TrapMode → BitVec 32
  | s => RiscV.sret
  | m => RiscV.mret

def returned : TrapMode → RV64Core → RV64Core
  | s => RV64Core.returnS
  | m => RV64Core.returnM

/-- `TSR` keeps S-mode from its return. -/
def mayReturn : TrapMode → Word → Prop
  | s, status => MStatus.tsr status = false
  | m, _ => True

end TrapMode

/-- The status word after a return from the mode `x`. -/
structure StatusLeft (x : TrapMode) (s s' : Word) : Prop where
  ie : s'.getLsbD x.ie = s.getLsbD x.pie
  pie : s'.getLsbD x.pie = true
  mprv : MStatus.mprv s' = true → MStatus.mprv s = true
  rest : EqOutside (17 :: x.statusBits) s s'

/-- A return from the mode `x` in `c` that leaves `c'`. -/
structure Leaves (x : TrapMode) (c c' : RV64Core) : Prop where
  mode : c'.nextPrivMode = PrivMode.ofVal (x.pp c.status)
  pc : c'.trapProgramCounter = (x.regs c).epc
  redirects : c'.needTrap = true
  pp : x.pp c'.status = PrivMode.uMode.val
  status : StatusLeft x c.status c'.status

theorem getLsbD_setBit_self {i : Nat} (h : i < 64) (b : Bool) (s : Word) :
    (BitField.setBit i b s).getLsbD i = b := by
  rw [BitField.getLsbD_setBit, if_pos rfl, decide_eq_true h, Bool.true_and]

/-- The edits that both returns make: the old enable bit comes back, its save is set, `MPRV` may
be cleared, and the old mode is replaced. -/
theorem StatusLeft.of_edits (x : TrapMode) {p : Prop} [Decidable p] {s s' : Word}
    (h : EqOutside x.ppBits
      (if p then MStatus.setMprv false (BitField.setBit x.pie true
          (BitField.setBit x.ie (s.getLsbD x.pie) s))
        else BitField.setBit x.pie true (BitField.setBit x.ie (s.getLsbD x.pie) s)) s') :
    StatusLeft x s s' := by
  generalize henabled : BitField.setBit x.ie (s.getLsbD x.pie) s = enabled at h
  generalize hstacked : BitField.setBit x.pie true enabled = stacked at h
  generalize hcleared : (if p then MStatus.setMprv false stacked else stacked) = cleared at h
  have henable : EqOutside [x.ie] s enabled := henabled ▸ EqOutside.setBit List.mem_cons_self _ _
  have hstack : EqOutside [x.pie] enabled stacked :=
    hstacked ▸ EqOutside.setBit List.mem_cons_self _ _
  have hclear : EqOutside [17] stacked cleared := by
    rw [← hcleared]
    split
    · exact EqOutside.setBit List.mem_cons_self _ _
    · exact EqOutside.refl _
  have hie : x.ie < 64 ∧ x.ie ∉ [x.pie] ∧ x.ie ∉ [17] ∧ x.ie ∉ x.ppBits := by
    cases x <;> decide
  have hpie : x.pie < 64 ∧ x.pie ∉ [17] ∧ x.pie ∉ x.ppBits := by cases x <;> decide
  have hprv : 17 ∉ [x.ie] ∧ 17 ∉ [x.pie] ∧ 17 ∉ x.ppBits := by cases x <;> decide
  constructor
  · rw [h _ hie.2.2.2, hclear _ hie.2.2.1, hstack _ hie.2.1, ← henabled,
      getLsbD_setBit_self hie.1]
  · rw [h _ hpie.2.2, hclear _ hpie.2.1, ← hstacked, getLsbD_setBit_self hpie.1]
  · intro hset
    rw [MStatus.mprv, h _ hprv.2.2, ← hcleared] at hset
    split at hset
    · rw [MStatus.setMprv, getLsbD_setBit_self (by decide)] at hset
      cases hset
    · rwa [hstack _ hprv.2.1, henable _ hprv.1] at hset
  · intro i hi
    have hnot : i ≠ 17 ∧ i ≠ x.ie ∧ i ≠ x.pie ∧ i ∉ x.ppBits := by
      simpa [TrapMode.statusBits] using hi
    rw [h _ hnot.2.2.2, hclear _ (by simpa using hnot.1), hstack _ (by simpa using hnot.2.2.1),
      henable _ (by simpa using hnot.2.1)]

theorem returnM_leaves (c : RV64Core) : Leaves .m c c.returnM where
  mode := congrArg PrivMode.ofVal (mpp_setBit (by decide) _ _)
  pc := rfl
  redirects := rfl
  pp := mpp_setMpp _ _
  status := .of_edits .m (setMpp_eqOutside (by decide) _ _)

theorem returnS_leaves (c : RV64Core) : Leaves .s c c.returnS where
  mode := by
    have hspp : SStatus.spp (SStatus.setSie (SStatus.spie c.status) c.status)
        = SStatus.spp c.status := by
      rw [SStatus.spp, SStatus.setSie, BitField.getLsbD_setBit, if_neg (by decide)]
      rfl
    exact congrArg (fun b => PrivMode.ofVal ((BitVec.ofBool b).setWidth 2)) hspp
  pc := rfl
  redirects := rfl
  pp := by
    have hspp : SStatus.spp c.returnS.status = false := getLsbD_setBit_self (by decide) _ _
    rw [TrapMode.pp, hspp]
    rfl
  status := .of_edits .s (EqOutside.setBit (by decide) _ _)

theorem returned_leaves (x : TrapMode) (c : RV64Core) : Leaves x c (x.returned c) := by
  cases x with
  | s => exact returnS_leaves c
  | m => exact returnM_leaves c

/-! ## The trap that is returned from -/

theorem TrapMode.priv_injective {x y : TrapMode} (h : x.priv = y.priv) : x = y := by
  cases x <;> cases y <;> first | rfl | cases h

theorem raiseTrap_ok {c c' : RV64Core} {cause tval : Word} {u : Unit}
    (h : (raiseTrap cause tval).run c = .ok u c') : c' = c.trapped cause tval := by
  cases hneed : c.needTrap with
  | true => simp [raiseTrap, cassert, hneed] at h
  | false =>
      rcases raiseTrap_cases hneed cause tval with hr | ⟨_, _, hr, -⟩ <;> rw [hr] at h <;> cases h
      rfl

/-- The core at the return: in the mode of the trap, with what trap entry left. -/
structure AtReturn (x : TrapMode) (c' c₁ : RV64Core) : Prop where
  mode : c₁.currentPrivMode = x.priv
  status : c₁.status = c'.status
  regs : x.regs c₁ = x.regs c'

section Return

variable {β : Type} [MMIOBus β] {x : TrapMode} {c c' : RV64Core} {cause tval : Word}
  {lines : IntStatus} {comp : Bool} {flags : ExecFlags} {m m₁ : Machine β}

omit [MMIOBus β] in
/-- The exit of the step and the begin of the next one lead from the trap to the return. -/
theorem atReturn_begun (hx : c'.nextPrivMode = x.priv)
    (hm : m.core = { c'.retire comp flags with intStatus := lines }) : AtReturn x c' m.begun := by
  have hbegun : m.begun = RV64Core.beginStep
      { c'.retire comp flags with intStatus := lines, trapLog := [] } := by
    rw [Machine.begun, Machine.clearLogs, hm]
  rw [hbegun]
  refine ⟨hx, rfl, ?_⟩
  cases x <;> rfl

/-- The return is permitted, and is the action of its instruction. -/
theorem run_return (hc : AtReturn x c' m.begun) (htsr : x.mayReturn c'.status) (s : MMUSys β) :
    ((action x.ret m.begun).exec).run ⟨m.begun, s⟩
      = .ok .plain ⟨x.returned m.begun, s⟩ := by
  cases x with
  | s =>
      have hperm : m.begun.sretPermitted = true := by
        have htsr : MStatus.tsr c'.status = false := htsr
        rw [RV64Core.sretPermitted, hc.mode, hc.status, htsr]
        rfl
      rw [TrapMode.ret, action_sret hperm, Action.exec,
        run_illegalUnless_ok (run_onCore_ok (m := ⟨m.begun, s⟩) (run_sret hperm))]
      rfl
  | m =>
      rw [TrapMode.ret, action_mret hc.mode, Action.exec,
        run_illegalUnless_ok (run_onCore_ok (m := ⟨m.begun, s⟩) (run_mret hc.mode))]
      rfl

/-- The reserved fields are none that trap entry or return touches. -/
theorem statusBlank_eq {s s' : Word} (h : EqOutside (17 :: x.statusBits) s s') :
    RV64Core.statusBlank s' = RV64Core.statusBlank s := by
  have hsub : ∀ i ∈ 17 :: x.statusBits, i ∈ MEmu.statusBits := by cases x <;> decide
  exact statusBlank_congr fun i hi => h i fun hin => hi (hsub i hin)

/-- The trap that was taken from `c` to the mode `x` is undone in `m`, but for what `xPIE`, `xPP`
and perhaps `MPRV` hold.  The mode is that of the next step. -/
structure Undone (x : TrapMode) (c : RV64Core) (m : Machine β) : Prop where
  mode : m.mode = c.currentPrivMode
  pc : m.core.currentProgramCounter = c.currentProgramCounter
  ie : m.core.status.getLsbD x.ie = c.status.getLsbD x.ie
  pie : m.core.status.getLsbD x.pie = true
  pp : x.pp m.core.status = PrivMode.uMode.val
  mprv : MStatus.mprv m.core.status = true → MStatus.mprv c.status = true
  rest : EqOutside (17 :: x.pie :: x.ppBits) c.status m.core.status

omit [MMIOBus β] in
/-- Entry and return together. -/
theorem undone_of_leaves {c₁ c₂ : RV64Core} (henter : Enters x c cause tval c')
    (hat : AtReturn x c' c₁) (hleave : Leaves x c₁ c₂) (comp : Bool) (flags : ExecFlags)
    (s : MMUSys β) : Undone x c ⟨c₂.retire comp flags, s⟩ := by
  obtain ⟨hmode, hpc, hneed, hpp, hstatus⟩ := hleave
  rw [hat.status] at hmode hstatus
  have hie : x.ie ∈ x.statusBits := List.mem_cons_self
  have hsub : ∀ i, i ∉ 17 :: x.pie :: x.ppBits → i ≠ x.ie → i ∉ 17 :: x.statusBits := by
    intro i hi hne
    simp only [TrapMode.statusBits, List.mem_cons, not_or] at hi ⊢
    exact ⟨hi.1, hne, hi.2.1, hi.2.2⟩
  have hprv : 17 ∉ x.statusBits := by cases x <;> decide
  have hback : c₂.status.getLsbD x.ie = c.status.getLsbD x.ie := hstatus.ie.trans henter.pie
  constructor
  · show c₂.nextPrivMode = c.currentPrivMode
    rw [hmode, henter.pp, PrivMode.ofVal_val]
  · show RV64Core.exitPC comp flags c₂ = c.currentProgramCounter
    rw [RV64Core.exitPC, if_pos hneed, hpc, hat.regs, henter.regs]
  · exact hback
  · exact hstatus.pie
  · exact hpp
  · exact fun h => (henter.status 17 hprv).symm.trans (hstatus.mprv h)
  · intro i hi
    by_cases hi' : i = x.ie
    · rw [hi']
      exact hback
    · have hout := hsub i hi hi'
      exact (hstatus.rest i hout).trans (henter.status i fun h => hout (List.mem_cons_of_mem _ h))

/-- A return undoes the trap: if the trap taken from `c` goes to the mode `x` and the next
instruction executed is the return from it, the step of that instruction leaves the mode, the PC
and the enable bit as they were.  It completes, unless the core held reserved bits that its exit
asserts to be zero. -/
theorem trap_return_undoes (hmode : c.currentPrivMode ≠ .hMode)
    (htrap : (raiseTrap cause tval).run c = .ok () c') (hx : c'.nextPrivMode = x.priv)
    (htsr : x.mayReturn c.status) (comp : Bool) (flags : ExecFlags) (lines : IntStatus)
    (hm : m.core = { c'.retire comp flags with intStatus := lines })
    (hfetch : fetchInst.run m = .ok (some x.ret) m₁) :
    Sat m stepCoreAPI (fun _ m' => Undone x c m')
      (fun e _ => e = .statusBlank ∧ RV64Core.statusBlank c.status = false) := by
  obtain rfl := raiseTrap_ok htrap
  have henter := (trapped_enters hmode cause tval).1
  have hmodes : c.trapMode cause = x := TrapMode.priv_injective (henter.mode.symm.trans hx)
  rw [hmodes] at henter
  have hat := atReturn_begun hx hm
  have htsr' : x.mayReturn (c.trapped cause tval).status := by
    cases x with
    | s => exact (henter.status 22 (by decide)).trans htsr
    | m => trivial
  obtain ⟨s, -, rfl⟩ := fetchInst_ok hfetch
  have hleave := returned_leaves x m.begun
  have hblank : RV64Core.statusBlank
      ((x.returned m.begun).retire (isCompressedInst x.ret) .plain).status
        = RV64Core.statusBlank c.status := by
    show RV64Core.statusBlank (x.returned m.begun).status = _
    rw [statusBlank_eq hleave.status.rest, hat.status,
      statusBlank_eq fun i hi => henter.status i fun h => hi (List.mem_cons_of_mem _ h)]
  have hrun := run_stepCoreAPI_of_action hfetch
  rw [run_return hat htsr' s] at hrun
  have hexit := run_stepExit (c := x.returned m.begun) x.ret (isCompressedInst x.ret) .plain nofun
  rw [atExit_legal rfl] at hexit
  unfold Sat
  rw [hrun]
  dsimp only
  cases hb : RV64Core.statusBlank c.status with
  | true =>
      rw [if_pos (hblank.trans hb)] at hexit
      rw [run_onCore_ok (m := ⟨x.returned m.begun, s⟩) hexit]
      exact undone_of_leaves henter hat hleave _ _ s
  | false =>
      rw [hblank, hb, if_neg Bool.false_ne_true] at hexit
      rw [run_onCore_error (m := ⟨x.returned m.begun, s⟩) hexit]
      exact ⟨rfl, rfl⟩

end Return

/-- S-mode after a breakpoint that is not delegated, at a handler that is an `mret`. -/
def brokenAt : RV64Core :=
  { (default : RV64Core) with
    currentPrivMode := .sMode
    currentProgramCounter := 0x1000
    status := 0x20008 }

/-- `mret`. -/
def bareHandler : List Byte := [0x73, 0x00, 0x20, 0x30]

theorem trap_return_undoes_mret :
    Sat (Machine.ofBytes
        ((brokenAt.trapped (Cause.exception .breakpoint) 0).retire false .plain) bareHandler)
      stepCoreAPI (fun _ m' => Undone .m brokenAt m')
      (fun e _ => e = .statusBlank ∧ RV64Core.statusBlank brokenAt.status = false) := by
  have htrap := run_raiseTrap_ok (c := brokenAt) rfl
    (show TrapCause (Cause.exception .breakpoint) by decide) 0
  exact trap_return_undoes (by decide) htrap rfl trivial false .plain brokenAt.intStatus rfl rfl

end MEmu
