import MEmu.CsrWrites

/-!
# Delegation and the supervisor views

`mideleg` says which interrupts are S-mode's, and the trap logic asks it.  The views `sie` and
`sip` do not: they show and write the bits under a fixed mask.  `RespectsDelegation` is what a
view that asks `mideleg` would give, and the section on the step says where the fixed mask gives
the same.
-/

namespace MEmu

open BitField (merge getLsbD_merge)
open RV64Core

/-! ## The CSR instructions -/

/-- What a CSR instruction does with its operand: it is written, or its bits are set or cleared. -/
inductive CsrOp where
  | write
  | set
  | clear
deriving DecidableEq

namespace CsrOp

/-- The operation of `csrrw`, `csrrs`, `csrrc`, and of the three with an immediate. -/
def ofInst (inst : BitVec 32) : Option CsrOp :=
  match RVInst.funct3 inst with
  | Funct3.csrrw | Funct3.csrrwi => some write
  | Funct3.csrrs | Funct3.csrrsi => some set
  | Funct3.csrrc | Funct3.csrrci => some clear
  | _ => none

/-- The operand: the immediate in the place of `rs1`, or what the register there holds. -/
def operand (inst : BitVec 32) (c : RV64Core) : Word :=
  match RVInst.funct3 inst with
  | Funct3.csrrwi | Funct3.csrrsi | Funct3.csrrci => (RVInst.rs1 inst).setWidth 64
  | _ => c.GPR (RVInst.rs1 inst)

/-- The instruction writes at all. -/
def writes (inst : BitVec 32) (op : CsrOp) : Bool := op == write || RVInst.rs1 inst != 0

/-- The value written over `old`. -/
def newValue (v old : Word) : CsrOp → Word
  | write => v
  | set => old ||| v
  | clear => old &&& ~~~v

/-- The bits of `old` that the operand changes. -/
def changes (v old : Word) : CsrOp → Word
  | write => v ^^^ old
  | set => v &&& ~~~old
  | clear => v &&& old

end CsrOp

/-- `inst` is the CSR instruction on `a` with the operation `op`. -/
structure CsrInst (inst : BitVec 32) (op : CsrOp) (a : CSRAddr) : Prop where
  wide : isCompressedInst inst = false
  opcode : RV64IOpCode.ofVal (RVInst.opcode inst) = some .system
  op : CsrOp.ofInst inst = some op
  csr : RVInst.csrIndex inst = a.val

instance (inst : BitVec 32) (op : CsrOp) (a : CSRAddr) : Decidable (CsrInst inst op a) :=
  decidable_of_iff (isCompressedInst inst = false ∧
      RV64IOpCode.ofVal (RVInst.opcode inst) = some .system ∧
      CsrOp.ofInst inst = some op ∧ RVInst.csrIndex inst = a.val)
    ⟨fun h => ⟨h.1, h.2.1, h.2.2.1, h.2.2.2⟩, fun h => ⟨h.wide, h.opcode, h.op, h.csr⟩⟩

section Action

variable {inst : BitVec 32} {op : CsrOp} {a : CSRAddr}

/-- The six cases, by their operation. -/
theorem csrCase_of_op (h : CsrOp.ofInst inst = some op) (c : RV64Core) :
    csrCase inst c
      = some (op.writes inst, fun old => op.newValue (CsrOp.operand inst c) old) := by
  unfold CsrOp.ofInst at h
  unfold csrCase CsrOp.operand CsrOp.writes
  split at h
  all_goals cases h
  all_goals
    rename_i h3
    rw [h3]
    rfl

theorem CsrInst.action (h : CsrInst inst op a) (c : RV64Core) :
    MEmu.action inst c
      = .ofCsr inst c (op.writes inst) fun old => op.newValue (CsrOp.operand inst c) old := by
  have hcase := csrCase_of_op h.op c
  have hpriv : RVInst.funct3 inst ≠ Funct3.priv := by
    intro hp
    rw [csrCase, hp] at hcase
    cases hcase
  simp only [MEmu.action, h.wide, Bool.false_eq_true, if_false, Action.of32, h.opcode,
    Action.ofSystem, if_neg hpriv, hcase]

end Action

/-! ## The views of the interrupt registers -/

/-- The views that S-mode has of `mie` and `mip`. -/
inductive IntView where
  | sie
  | sip
deriving DecidableEq

namespace IntView

def addr : IntView → CSRAddr
  | sie => .sie
  | sip => .sip

/-- The register that is viewed. -/
def field (c : RV64Core) : IntView → Word
  | sie => c.csrIntEnable
  | sip => c.csrIntPending

/-- The core with the register replaced. -/
def setField (v : Word) (c : RV64Core) : IntView → RV64Core
  | sie => { c with csrIntEnable := v }
  | sip => { c with csrIntPending := v }

variable (view : IntView) (c : RV64Core) (v : Word)

theorem csrRead_addr : c.csrRead view.addr.val = some (view.field c &&& S_MODE_INT_MASK) := by
  cases view <;> rfl

theorem csrWriteCase_addr :
    c.csrWriteCase v view.addr
      = some (view.setField (merge S_MODE_INT_MASK v (view.field c)) c) := by
  cases view <;> rfl

/-- S-mode may read and write both. -/
theorem permission (h : c.currentPrivMode = .sMode) (write : Bool) :
    c.csrOpPermissionCheck view.addr.val write = true := by
  rw [csrOpPermissionCheck, h]
  cases view <;> rfl

end IntView

/-- The core after a CSR instruction on a view, without its exit. -/
def viewAccessed (inst : BitVec 32) (op : CsrOp) (view : IntView) (c : RV64Core) : RV64Core :=
  let old := view.field c &&& S_MODE_INT_MASK
  let written := merge S_MODE_INT_MASK (op.newValue (CsrOp.operand inst c) old) (view.field c)
  (if op.writes inst then view.setField written c else c).setGPR (RVInst.rd inst) old

section Step

variable {β : Type} [MMIOBus β] {m : Machine β} {s : MMUSys β} {inst : BitVec 32} {op : CsrOp}
  {view : IntView}

theorem run_viewAction (hmode : m.core.currentPrivMode = .sMode)
    (h : CsrInst inst op view.addr) :
    ((action inst m.core).exec).run m
      = .ok .plain { m with core := viewAccessed inst op view m.core } := by
  have hne : view.addr ≠ .mtvec := by
    cases view <;> simp [IntView.addr]
  simp only [h.action, Action.ofCsr, h.csr, view.permission m.core hmode, Bool.not_true,
    Bool.false_eq_true, if_false, view.csrRead_addr]
  cases hw : op.writes inst with
  | false =>
      rw [if_neg Bool.false_ne_true, viewAccessed, hw]
      rfl
  | true =>
      simp only [if_true, Action.ofCsrWrite, h.csr, CSRAddr.ofVal_val, view.csrWriteCase_addr,
        Option.isSome_some, Action.permitted]
      rw [run_csr (view.csrWriteCase_addr m.core _), if_pos fun h => absurd h hne, viewAccessed, hw]
      rfl

/-- The core that a step ends with when it executes a CSR instruction on a view in S-mode. -/
theorem final_viewStep (hf : fetchInst.run m = .ok (some inst) ⟨m.begun, s⟩)
    (hmode : m.begun.currentPrivMode = .sMode) (h : CsrInst inst op view.addr) :
    (Run.final (stepCoreAPI.run m)).core
      = (viewAccessed inst op view m.begun).retire (isCompressedInst inst) .plain := by
  have ha := run_viewAction (m := ⟨m.begun, s⟩) hmode h
  rw [(final_of_action hf ha).2, atExit_legal rfl]

end Step

/-! ## Delegation -/

/-- The bits of the views that `mideleg` leaves to M-mode. -/
def RV64Core.undelegated (c : RV64Core) : Word := S_MODE_INT_MASK &&& ~~~c.csrMIntDelegation

/-- The instruction, executed from `c` to `c'`, shows no bit that `mideleg` does not delegate in
its destination, and changes none in `mie` and `mip`. -/
structure RespectsDelegation (inst : BitVec 32) (c c' : RV64Core) : Prop where
  reads : RVInst.rd inst ≠ 0 → c'.GPR (RVInst.rd inst) &&& ~~~c.csrMIntDelegation = 0
  mie : c'.csrIntEnable &&& ~~~c.csrMIntDelegation = c.csrIntEnable &&& ~~~c.csrMIntDelegation
  mip : c'.csrIntPending &&& ~~~c.csrMIntDelegation = c.csrIntPending &&& ~~~c.csrMIntDelegation

/-- What is shown of `old` is shown of no bit in `kept`, and what is written changes none. -/
structure SparesKept (inst : BitVec 32) (op : CsrOp) (kept v old : Word) : Prop where
  shown : RVInst.rd inst ≠ 0 → old &&& kept = 0
  written : op.writes inst = true → op.changes v old &&& kept = 0

/-- A write through the mask keeps what is outside `deleg` where the operand changes nothing that
is under the mask and outside `deleg`. -/
theorem merge_newValue_iff (op : CsrOp) (mask deleg v old : Word) :
    merge mask (op.newValue v (old &&& mask)) old &&& ~~~deleg = old &&& ~~~deleg ↔
      op.changes v old &&& (mask &&& ~~~deleg) = 0 := by
  rw [BitVec.eq_of_getLsbD_eq_iff, BitVec.eq_of_getLsbD_eq_iff]
  refine forall_congr' fun i => imp_congr_right fun hi => ?_
  simp only [BitVec.getLsbD_and, getLsbD_merge, BitVec.getLsbD_not]
  cases op <;>
    simp only [CsrOp.newValue, CsrOp.changes, BitVec.getLsbD_and, BitVec.getLsbD_or,
      BitVec.getLsbD_xor, BitVec.getLsbD_not] <;>
    cases mask.getLsbD i <;> cases deleg.getLsbD i <;> cases v.getLsbD i <;>
      cases old.getLsbD i <;> simp [hi]

section Access

variable {inst : BitVec 32} {op : CsrOp} {view : IntView} {c : RV64Core}

/-- The register that is not viewed is not changed, and the other is where a bit is written. -/
theorem viewAccessed_keeps_iff (inst : BitVec 32) (op : CsrOp) (view : IntView) (c : RV64Core) :
    ((viewAccessed inst op view c).csrIntEnable &&& ~~~c.csrMIntDelegation
          = c.csrIntEnable &&& ~~~c.csrMIntDelegation ∧
        (viewAccessed inst op view c).csrIntPending &&& ~~~c.csrMIntDelegation
          = c.csrIntPending &&& ~~~c.csrMIntDelegation) ↔
      (op.writes inst = true →
        op.changes (CsrOp.operand inst c) (view.field c) &&& c.undelegated = 0) := by
  rw [viewAccessed, setGPR_eq]
  cases hw : op.writes inst with
  | false => simp
  | true =>
      rw [RV64Core.undelegated, ← merge_newValue_iff]
      cases view <;> simp [IntView.setField, IntView.field]

/-- The destination shows what the mask shows. -/
theorem viewAccessed_rd (hrd : RVInst.rd inst ≠ 0) :
    (viewAccessed inst op view c).GPR (RVInst.rd inst) = view.field c &&& S_MODE_INT_MASK := by
  rw [viewAccessed, setGPR, if_neg hrd]
  exact if_pos rfl

end Access

section Step

variable {β : Type} [MMIOBus β] {m : Machine β} {s : MMUSys β} {inst : BitVec 32} {op : CsrOp}
  {view : IntView}

/-- A CSR instruction on a view that S-mode executes respects the delegation exactly where it
shows no bit that stays with M-mode and changes none. -/
theorem respectsDelegation_iff (hf : fetchInst.run m = .ok (some inst) ⟨m.begun, s⟩)
    (hmode : m.begun.currentPrivMode = .sMode) (h : CsrInst inst op view.addr) :
    RespectsDelegation inst m.begun (Run.final (stepCoreAPI.run m)).core ↔
      SparesKept inst op m.begun.undelegated (CsrOp.operand inst m.begun)
        (view.field m.begun) := by
  rw [final_viewStep hf hmode h]
  have hkeeps := viewAccessed_keeps_iff inst op view m.begun
  have hreads (hrd : RVInst.rd inst ≠ 0) :
      (viewAccessed inst op view m.begun).GPR (RVInst.rd inst) &&& ~~~m.begun.csrMIntDelegation
        = view.field m.begun &&& m.begun.undelegated := by
    rw [viewAccessed_rd hrd, BitVec.and_assoc, undelegated]
  constructor
  · intro hr
    exact ⟨fun hrd => (hreads hrd).symm.trans (hr.reads hrd), hkeeps.mp ⟨hr.mie, hr.mip⟩⟩
  · intro hs
    obtain ⟨hmie, hmip⟩ := hkeeps.mpr hs.written
    exact ⟨fun hrd => (hreads hrd).trans (hs.shown hrd), hmie, hmip⟩

end Step

/-- S-mode at `csrrsi x1, sip, 2`, with the supervisor timer pending. -/
def raisesSoftware (mideleg : Word) : Machine (MEmuMMIOBus MMIOMem) :=
  .ofBytes
    { (default : RV64Core) with
      nextPrivMode := .sMode
      csrMIntDelegation := mideleg
      csrIntPending := 0x20 } [0xf3, 0x60, 0x41, 0x14]

theorem respectsDelegation_iff_delegated :
    RespectsDelegation 0x144160f3 (raisesSoftware 0x222).begun
      (Run.final (stepCoreAPI.run (raisesSoftware 0x222))).core := by
  have hf : fetchInst.run (raisesSoftware 0x222)
      = .ok (some 0x144160f3) ⟨(raisesSoftware 0x222).begun,
          (Run.final (fetchInst.run (raisesSoftware 0x222))).mem⟩ := by rfl
  have hinst : CsrInst 0x144160f3 .set IntView.sip.addr := by decide
  exact (respectsDelegation_iff hf rfl hinst).mpr ⟨fun _ => by decide, fun _ => by decide⟩

/-- Nothing is delegated, and S-mode reads the timer bit and sets the software bit. -/
theorem undelegated_reached :
    let m := raisesSoftware 0
    let m' := Run.final (stepCoreAPI.run m)
    m.begun.csrMIntDelegation = 0 ∧ m'.core.GPR 1 = 0x20 ∧ m'.core.csrIntPending = 0x22 ∧
      ¬RespectsDelegation 0x144160f3 m.begun m'.core := by
  have hpending : (Run.final (stepCoreAPI.run (raisesSoftware 0))).core.csrIntPending = 0x22 := by
    rfl
  refine ⟨rfl, by rfl, hpending, fun h => ?_⟩
  have hmip := h.mip
  rw [hpending] at hmip
  exact absurd hmip (by decide)

end MEmu
