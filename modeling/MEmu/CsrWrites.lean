import MEmu.SupervisorViews
import MEmu.Lib.Cells

/-!
# CSR writes

A CSR number has at most one field of the core to write, and some share theirs.  `CSRAddr.legal`
is what a write of a value leaves in the field, given what it held, and `CSRAddr.view` what a
read shows of it.  With the laws of independent cells, two laws of these (`legal_legal` and
`legal_view`) say what a write does to the value of every CSR.
-/

namespace MEmu

open BitField (merge)
open RV64Core

/-! ## The cells -/

/-- The fields of the core that a CSR write changes. -/
inductive CsrCell where
  | status
  | csrMExceptionDelegation
  | csrMIntDelegation
  | csrIntEnable
  | csrMTrapVecBaseAddr
  | csrMCounterEN
  | csrMscratch
  | csrMExceptionPC
  | csrMachineCause
  | csrMachineTrapVal
  | csrIntPending
  | csrMCycleNum
  | csrSTrapVecBaseAddr
  | csrSCounterEN
  | csrSscratch
  | csrSExceptionPC
  | csrSupervisorCause
  | csrSupervisorTrapVal
  | satp
deriving DecidableEq

namespace CsrCell

def get : CsrCell → RV64Core → Word
  | status, c => c.status
  | csrMExceptionDelegation, c => c.csrMExceptionDelegation
  | csrMIntDelegation, c => c.csrMIntDelegation
  | csrIntEnable, c => c.csrIntEnable
  | csrMTrapVecBaseAddr, c => c.csrMTrapVecBaseAddr
  | csrMCounterEN, c => c.csrMCounterEN
  | csrMscratch, c => c.csrMscratch
  | csrMExceptionPC, c => c.csrMExceptionPC
  | csrMachineCause, c => c.csrMachineCause
  | csrMachineTrapVal, c => c.csrMachineTrapVal
  | csrIntPending, c => c.csrIntPending
  | csrMCycleNum, c => c.csrMCycleNum
  | csrSTrapVecBaseAddr, c => c.csrSTrapVecBaseAddr
  | csrSCounterEN, c => c.csrSCounterEN
  | csrSscratch, c => c.csrSscratch
  | csrSExceptionPC, c => c.csrSExceptionPC
  | csrSupervisorCause, c => c.csrSupervisorCause
  | csrSupervisorTrapVal, c => c.csrSupervisorTrapVal
  | satp, c => c.satp

def set : CsrCell → Word → RV64Core → RV64Core
  | status, v, c => { c with status := v }
  | csrMExceptionDelegation, v, c => { c with csrMExceptionDelegation := v }
  | csrMIntDelegation, v, c => { c with csrMIntDelegation := v }
  | csrIntEnable, v, c => { c with csrIntEnable := v }
  | csrMTrapVecBaseAddr, v, c => { c with csrMTrapVecBaseAddr := v }
  | csrMCounterEN, v, c => { c with csrMCounterEN := v }
  | csrMscratch, v, c => { c with csrMscratch := v }
  | csrMExceptionPC, v, c => { c with csrMExceptionPC := v }
  | csrMachineCause, v, c => { c with csrMachineCause := v }
  | csrMachineTrapVal, v, c => { c with csrMachineTrapVal := v }
  | csrIntPending, v, c => { c with csrIntPending := v }
  | csrMCycleNum, v, c => { c with csrMCycleNum := v }
  | csrSTrapVecBaseAddr, v, c => { c with csrSTrapVecBaseAddr := v }
  | csrSCounterEN, v, c => { c with csrSCounterEN := v }
  | csrSscratch, v, c => { c with csrSscratch := v }
  | csrSExceptionPC, v, c => { c with csrSExceptionPC := v }
  | csrSupervisorCause, v, c => { c with csrSupervisorCause := v }
  | csrSupervisorTrapVal, v, c => { c with csrSupervisorTrapVal := v }
  | satp, v, c => { c with satp := v }

theorem get_set_of_ne (i j : CsrCell) (v : Word) (c : RV64Core) (h : j ≠ i) :
    j.get (i.set v c) = j.get c := by
  cases i <;> cases j <;> first | rfl | exact absurd rfl h

/-- What a CSR write changes nothing of. -/
theorem set_rest (i : CsrCell) (v : Word) (c : RV64Core) :
    (i.set v c).rvHartID = c.rvHartID ∧ (i.set v c).csrMachineISA = c.csrMachineISA ∧
      (i.set v c).minstret = c.minstret := by
  cases i <;> exact ⟨rfl, rfl, rfl⟩

end CsrCell

/-- The fields as independent cells of the core. -/
def csrCells : Cells CsrCell Word RV64Core where
  get := CsrCell.get
  set := CsrCell.set
  get_set i v c := by cases i <;> rfl
  get_set_of_ne := CsrCell.get_set_of_ne
  set_get i c := by cases i <;> rfl
  set_set i v w c := by cases i <;> rfl

/-! ## Registers on cells -/

namespace CSRAddr

/-- The field that a register is kept in, of those that a write changes. -/
def cell : CSRAddr → Option CsrCell
  | mstatus => some .status
  | medeleg => some .csrMExceptionDelegation
  | mideleg => some .csrMIntDelegation
  | mie => some .csrIntEnable
  | mtvec => some .csrMTrapVecBaseAddr
  | mcounteren => some .csrMCounterEN
  | mscratch => some .csrMscratch
  | mepc => some .csrMExceptionPC
  | mcause => some .csrMachineCause
  | mtval => some .csrMachineTrapVal
  | mip => some .csrIntPending
  | mcycle => some .csrMCycleNum
  | sstatus => some .status
  | sie => some .csrIntEnable
  | stvec => some .csrSTrapVecBaseAddr
  | scounteren => some .csrSCounterEN
  | sscratch => some .csrSscratch
  | sepc => some .csrSExceptionPC
  | scause => some .csrSupervisorCause
  | stval => some .csrSupervisorTrapVal
  | sip => some .csrIntPending
  | satp => some .satp
  | cycle => some .csrMCycleNum
  | _ => none

/-- What a write of `v` leaves in the field where it held `x`. -/
def legal (v x : Word) : CSRAddr → Word
  | mstatus => merge MSTATUS_WRITE_MASK v x
  | sstatus => merge SSTATUS_WRITE_MASK v x
  | medeleg => v &&& S_MODE_EXC_MASK
  | mideleg => v &&& S_MODE_INT_MASK
  | mie => v &&& M_MODE_INT_MASK
  | mip => v &&& M_MODE_INT_MASK
  | sie => merge S_MODE_INT_MASK v x
  | sip => merge S_MODE_INT_MASK v x
  | mcounteren => v &&& COUNTER_MASK
  | scounteren => v &&& COUNTER_MASK
  | stvec => legalTvec v
  | satp => legalSatp v
  | _ => v

/-- What a read shows of a field that holds `x`. -/
def view (x : Word) : CSRAddr → Word
  | sstatus => x &&& SSTATUS_MASK
  | sie => x &&& S_MODE_INT_MASK
  | sip => x &&& S_MODE_INT_MASK
  | _ => x

/-- What a read shows of a register that no write changes. -/
def fixed (c : RV64Core) : CSRAddr → Word
  | mhartid => c.rvHartID
  | misa => c.csrMachineISA
  | minstret => c.minstret
  | tselect => 1
  | _ => 0

/-- The value of a register. -/
def value (c : RV64Core) (a : CSRAddr) : Word :=
  match a.cell with
  | some i => view (csrCells.get i c) a
  | none => fixed c a

/-- The core after a write of `v`. -/
def put (a : CSRAddr) (v : Word) (c : RV64Core) : RV64Core :=
  match a.cell with
  | some i => csrCells.update i (fun x => legal v x a) c
  | none => c

/-! ## Reads and writes -/

variable {c c' : RV64Core} {a b : CSRAddr} {v w : Word}

theorem csrReadCase_eq (h : a ≠ satp) (h' : a ≠ cycle) : c.csrReadCase a = some (a.value c) := by
  cases a
  case satp => exact absurd rfl h
  case cycle => exact absurd rfl h'
  case sstatus => exact congrArg some (sstatusView_eq c.status)
  all_goals rfl

/-- A read that succeeds shows the value. -/
theorem eq_value (h : c.csrReadCase a = some w) : w = a.value c := by
  cases a
  case satp =>
    rw [csrReadCase] at h
    split at h <;> cases h
    rfl
  case cycle =>
    rw [csrReadCase] at h
    split at h <;> cases h
    rfl
  case sstatus => exact (Option.some.inj h).symm.trans (sstatusView_eq c.status)
  all_goals exact (Option.some.inj h).symm

/-- A write that succeeds puts the value. -/
theorem eq_put (h : c.csrWriteCase v a = some c') : c' = a.put v c := by
  cases a
  case satp =>
    rw [csrWriteCase] at h
    split at h <;> cases h
    rfl
  case mstatus =>
    rw [csrWriteCase, writeMStatus_eq] at h
    exact (Option.some.inj h).symm
  case sstatus =>
    rw [csrWriteCase, writeSStatus_eq] at h
    exact (Option.some.inj h).symm
  all_goals first | exact (Option.some.inj h).symm | cases h

/-- After a write that succeeds, the next one does. -/
theorem csrWriteCase_again (h : c.csrWriteCase v a = some c') (w : Word) :
    c'.csrWriteCase w a = some (a.put w c') := by
  obtain ⟨c'', h''⟩ : ∃ c'', c'.csrWriteCase w a = some c'' := by
    cases a
    case satp =>
      rw [csrWriteCase] at h
      split at h
      · cases h
      · cases h
        exact ⟨_, if_neg ‹_›⟩
    all_goals first | exact ⟨_, rfl⟩ | cases h
  rw [h'', eq_put h'']

/-- After a write that succeeds, the register is read. -/
theorem csrReadCase_written (h : c.csrWriteCase v a = some c') :
    c'.csrReadCase a = some (a.value c') := by
  cases a
  case satp =>
    rw [csrWriteCase] at h
    split at h
    · cases h
    · cases h
      exact if_neg ‹_›
  case cycle => cases h
  all_goals exact csrReadCase_eq (by simp) (by simp)

/-! ## The laws -/

theorem legalTvec_of_mode (h : TrapVector.mode v ≤ 1) : legalTvec v = v :=
  if_neg (BitVec.not_lt.mpr h)

theorem legalSatp_of_mode (h : Satp.mode v = 0 ∨ Satp.mode v = 8) : legalSatp v = v := by
  refine if_neg fun hne => ?_
  cases h with
  | inl h => exact hne.1 h
  | inr h => exact hne.2 h

/-- What a write left stays when the value is written again. -/
theorem legal_legal (v x : Word) (a : CSRAddr) : legal v (legal v x a) a = legal v x a := by
  cases a
  case mstatus => exact BitField.merge_merge _ v x
  case sstatus => exact BitField.merge_merge _ v x
  case sie => exact BitField.merge_merge _ v x
  case sip => exact BitField.merge_merge _ v x
  all_goals rfl

theorem and_and_self (x mask : Word) : x &&& mask &&& mask = x &&& mask := by
  rw [BitVec.and_assoc, BitVec.and_self]

/-- Writing a view within a mask shown by it back. -/
theorem merge_and_self {mask shown : Word} (x : Word) (h : mask &&& shown = mask) :
    merge mask (x &&& shown) x = x := by
  apply BitField.merge_eq_self
  intro i hi
  rw [← h, BitVec.getLsbD_and, Bool.and_eq_true] at hi
  rw [BitVec.getLsbD_and, hi.2, Bool.and_true]

/-- What a write left stays when what it shows is written back. -/
theorem legal_view (v x : Word) (a : CSRAddr) :
    legal (view (legal v x a) a) (legal v x a) a = legal v x a := by
  cases a
  case mstatus => exact BitField.merge_eq_self fun _ _ => rfl
  case sstatus => exact merge_and_self _ (by decide)
  case sie => exact merge_and_self _ (BitVec.and_self)
  case sip => exact merge_and_self _ (BitVec.and_self)
  case stvec => exact legalTvec_of_mode (mode_legalTvec v)
  case satp => exact legalSatp_of_mode (mode_legalSatp v)
  case medeleg => exact and_and_self v _
  case mideleg => exact and_and_self v _
  case mie => exact and_and_self v _
  case mip => exact and_and_self v _
  case mcounteren => exact and_and_self v _
  case scounteren => exact and_and_self v _
  all_goals rfl

theorem put_put (a : CSRAddr) (v : Word) (c : RV64Core) : a.put v (a.put v c) = a.put v c := by
  cases h : a.cell with
  | none => simp [put, h]
  | some i =>
      simp only [put, h]
      exact csrCells.update_update_of_fixed i _ _ (legal_legal v _ a)

theorem put_value (a : CSRAddr) (v : Word) (c : RV64Core) :
    a.put (a.value (a.put v c)) (a.put v c) = a.put v c := by
  cases h : a.cell with
  | none => simp [put, h]
  | some i =>
      simp only [put, value, h]
      rw [csrCells.get_update]
      exact csrCells.update_update_of_fixed i _ _ (legal_view v _ a)

/-- A write changes the value of no register in another field. -/
theorem value_put (v : Word) (c : RV64Core) (h : a.cell = none ∨ b.cell ≠ a.cell) :
    b.value (a.put v c) = b.value c := by
  cases ha : a.cell with
  | none => simp [put, ha]
  | some i =>
      have hne : b.cell ≠ some i := by simpa [ha] using h
      cases hb : b.cell with
      | none =>
          obtain ⟨hhart, hisa, hinstret⟩ := i.set_rest (legal v (csrCells.get i c) a) c
          simp only [put, value, ha, hb, Cells.update]
          cases b <;> first | rfl | exact hhart | exact hisa | exact hinstret
      | some j =>
          have hji : j ≠ i := fun h => hne (h ▸ hb)
          simp only [put, value, ha, hb, csrCells.get_update_of_ne i j _ c hji]

/-! ## Alias groups -/

/-- The registers that share a field. -/
def aliasGroups : List (List CSRAddr) :=
  [[mstatus, sstatus], [mie, sie], [mip, sip], [mcycle, cycle]]

/-- The numbers of one register, or of two in a group. -/
def Aliased (csr_index csr_index' : BitVec 12) : Prop :=
  csr_index = csr_index' ∨
    ∃ g ∈ aliasGroups, csr_index ∈ g.map val ∧ csr_index' ∈ g.map val

theorem aliased_of_cell {i : CsrCell} (ha : a.cell = some i) (hb : b.cell = some i) :
    Aliased a.val b.val := by
  have hgroup : ∀ g ∈ aliasGroups, a ∈ g → b ∈ g → Aliased a.val b.val := fun g hg ha hb =>
    .inr ⟨g, hg, List.mem_map_of_mem ha, List.mem_map_of_mem hb⟩
  cases a <;> cases ha <;> cases b <;> cases hb
  all_goals first
    | exact .inl rfl
    | exact hgroup [mstatus, sstatus] (by decide) (by decide) (by decide)
    | exact hgroup [mie, sie] (by decide) (by decide) (by decide)
    | exact hgroup [mip, sip] (by decide) (by decide) (by decide)
    | exact hgroup [mcycle, cycle] (by decide) (by decide) (by decide)

end CSRAddr

/-! ## Writes by number -/

/-- What a write of `v` to the CSR numbered `csr_index` does where it succeeds, and where it is
refused. -/
structure CsrWriteLaws (csr_index : BitVec 12) (v : Word) (c : RV64Core) : Prop where
  twice : ∀ c', (csrWrite csr_index v).run c = .ok true c' →
    (csrWrite csr_index v).run c' = .ok true c'
  back : ∀ c', (csrWrite csr_index v).run c = .ok true c' →
    ∃ w, c'.csrRead csr_index = some w ∧ (csrWrite csr_index w).run c' = .ok true c'
  elsewhere : ∀ c', (csrWrite csr_index v).run c = .ok true c' →
    ∀ csr_index', ¬CSRAddr.Aliased csr_index csr_index' →
      c'.csrRead csr_index' = c.csrRead csr_index' ∨
        csr_index' ∈ [CSRAddr.cycle.val, CSRAddr.satp.val] ∧
          (c.csrRead csr_index' = none ∨ c'.csrRead csr_index' = none)
  refused : ∀ c', (csrWrite csr_index v).run c = .ok false c' → c' = c

/-- A write succeeds where the case of the register does and `mtvec` gets a mode that it has. -/
theorem csrWrite_true {csr_index : BitVec 12} {v : Word} {c c' : RV64Core} :
    (csrWrite csr_index v).run c = .ok true c' ↔
      ∃ a, CSRAddr.ofVal csr_index = some a ∧ (a = .mtvec → TrapVector.mode v ≤ 1) ∧
        c.csrWriteCase v a = some c' := by
  rw [run_csrWrite]
  cases ha : CSRAddr.ofVal csr_index with
  | none => simp
  | some a =>
      rw [Option.bind_some]
      constructor
      · intro h
        split at h
        · next hmode =>
            cases hw : c.csrWriteCase v a with
            | none => simp [hw] at h
            | some c'' =>
                simp only [hw, EStateM.Result.ok.injEq, true_and] at h
                exact ⟨a, rfl, fun hm => hmode (hm ▸ rfl), h ▸ hw⟩
        · cases h
      · rintro ⟨a', ha', hmode, hw⟩
        obtain rfl := Option.some.inj ha'
        rw [if_pos fun hm => hmode (Option.some.inj hm), hw]

/-- A refused write leaves the core as it was. -/
theorem csrWrite_false {csr_index : BitVec 12} {v : Word} {c c' : RV64Core}
    (h : (csrWrite csr_index v).run c = .ok false c') : c' = c := by
  rw [run_csrWrite] at h
  split at h
  · split at h <;> cases h
    rfl
  · cases h

/-- A register of another number keeps its value, and its read may only be refused. -/
theorem csrRead_put {a : CSRAddr} {v : Word} {c : RV64Core} {csr_index' : BitVec 12}
    (h : ¬CSRAddr.Aliased a.val csr_index') :
    (a.put v c).csrRead csr_index' = c.csrRead csr_index' ∨
      csr_index' ∈ [CSRAddr.cycle.val, CSRAddr.satp.val] ∧
        (c.csrRead csr_index' = none ∨ (a.put v c).csrRead csr_index' = none) := by
  cases hb : CSRAddr.ofVal csr_index' with
  | none => exact .inl (by rw [csrRead, csrRead, hb]; rfl)
  | some b =>
      obtain rfl := CSRAddr.val_of_ofVal hb
      have hcell : a.cell = none ∨ b.cell ≠ a.cell := by
        cases ha : a.cell with
        | none => exact .inl rfl
        | some i => exact .inr fun hbi => h (CSRAddr.aliased_of_cell ha hbi)
      have hvalue := CSRAddr.value_put v c hcell
      simp only [csrRead, CSRAddr.ofVal_val, Option.bind_some]
      by_cases hgated : b = .satp ∨ b = .cycle
      · have hmem : b.val ∈ [CSRAddr.cycle.val, CSRAddr.satp.val] := by
          rcases hgated with rfl | rfl <;> decide
        cases hold : c.csrReadCase b with
        | none => exact .inr ⟨hmem, .inl rfl⟩
        | some w =>
            cases hnew : (a.put v c).csrReadCase b with
            | none => exact .inr ⟨hmem, .inr rfl⟩
            | some w' =>
                rw [CSRAddr.eq_value hold, CSRAddr.eq_value hnew, hvalue]
                exact .inl rfl
      · rw [not_or] at hgated
        rw [CSRAddr.csrReadCase_eq hgated.1 hgated.2, CSRAddr.csrReadCase_eq hgated.1 hgated.2,
          hvalue]
        exact .inl rfl

/-- Every write of a control register obeys the laws. -/
theorem csr_writes (csr_index : BitVec 12) (v : Word) (c : RV64Core) :
    CsrWriteLaws csr_index v c where
  twice c' h := by
    obtain ⟨a, ha, hmode, hw⟩ := csrWrite_true.mp h
    refine csrWrite_true.mpr ⟨a, ha, hmode, ?_⟩
    rw [CSRAddr.csrWriteCase_again hw, CSRAddr.eq_put hw, CSRAddr.put_put]
  back c' h := by
    obtain ⟨a, ha, hmode, hw⟩ := csrWrite_true.mp h
    refine ⟨a.value c', ?_, csrWrite_true.mpr ⟨a, ha, ?_, ?_⟩⟩
    · rw [csrRead, ha, Option.bind_some, CSRAddr.csrReadCase_written hw]
    · rintro rfl
      rw [CSRAddr.eq_put hw]
      exact hmode rfl
    · rw [CSRAddr.csrWriteCase_again hw, CSRAddr.eq_put hw, CSRAddr.put_value]
  elsewhere c' h csr_index' hother := by
    obtain ⟨a, ha, -, hw⟩ := csrWrite_true.mp h
    obtain rfl := CSRAddr.val_of_ofVal ha
    rw [CSRAddr.eq_put hw]
    exact csrRead_put hother
  refused c' h := csrWrite_false h

/-- A write of `sie` changes the bits of S-mode in the field of `mie`. -/
example : (csrWrite CSRAddr.sie.val 0xfff).run { (default : RV64Core) with csrIntEnable := 0x888 }
    = .ok true { (default : RV64Core) with csrIntEnable := 0xaaa } := by rfl

end MEmu
