import MEmu.Step

/-!
# Memory operations

What the load, store and atomic cases ask of the MMU, as data.  `MemOp.perform`
makes the access and says whether it returned a value or a cause, and
`MemOp.exec` is the shape the five kinds of case share: the value goes into a
register, the cause is raised with the address as trap value.  The cases of the
switches are `MemOp.exec` at their own operation.
-/

namespace MEmu

open Machine (onCore onMem)

variable {β : Type}

/-- A data access of an instruction. -/
inductive MemOp where
  | load (addr size : Word) (signed : Bool)
  | store (addr size data : Word)
  | loadReserved (addr size : Word)
  | storeConditional (addr size data : Word)
  | amo (op : AMOFunct) (addr size src : Word)

namespace MemOp

/-- The virtual address, which is the trap value of a failed access. -/
def addr : MemOp → Word
  | load addr _ _ => addr
  | store addr _ _ => addr
  | loadReserved addr _ => addr
  | storeConditional addr _ _ => addr
  | amo _ addr _ _ => addr

/-- A value, or the cause that stands in its place. -/
def outcome (exc : ExecFeedbackCode) (value : Word) : Except ExecFeedbackCode Word :=
  if exc = .ok then .ok value else .error exc

variable [MMIOBus β]

/-- The access, with the alignment check of the instruction that makes it. -/
def perform (env : MMUEnv) : MemOp → MMUM β (Except ExecFeedbackCode Word)
  | load addr size signed =>
      if addr % size ≠ 0 then pure (.error .loadMisalign)
      else do
        let (va_err, buf) ← MMUSys.vaddrReadBuffer env addr size (env.uninit size.toNat)
        pure (outcome (va_err.cause .loadAccFault .loadMisalign .loadPgfault)
          (Bytes.extend signed size.toNat buf))
  | store addr size data =>
      if addr % size ≠ 0 then pure (.error .storeMisalign)
      else do
        let va_err ← MMUSys.vaddrWriteBuffer env addr size (Bytes.ofWord size.toNat data)
        pure (outcome (va_err.cause .storeAccFault .storeMisalign .storePgfault) 0)
  | loadReserved addr size => do
      let (exc, buf) ← MMUSys.vaddrLoadReserved env addr size (env.uninit size.toNat)
      pure (outcome exc (Bytes.extend true size.toNat buf))
  | storeConditional addr size data => do
      let (exc, sc_fail) ←
        MMUSys.vaddrStoreConditional env addr size (Bytes.ofWord size.toNat data)
      pure (outcome exc (if sc_fail then 1 else 0))
  | amo op addr size src => do
      let (exc, dst) ← MMUSys.vaddrAtomicMemOperation env addr size op src
      pure (outcome exc dst)

/-- The access made, and its end put into the core. -/
def exec (op : MemOp) (rd : BitVec 5) : Exec β ExecFlags := do
  match ← onMem fun env => op.perform env with
  | .ok value => setInto rd value
  | .error cause =>
      raiseException cause op.addr
      pure .plain

/-! ## The cases as memory operations -/

theorem loadInto_eq (rd : BitVec 5) (addr size : Word) (signed : Bool) :
    loadInto (β := β) rd addr size signed = (load addr size signed).exec rd := by
  funext m
  show (loadInto rd addr size signed).run m = ((load addr size signed).exec rd).run m
  simp only [loadInto, memRead, exec, perform, EStateM.run_bind, EStateM.run_get]
  by_cases h : addr % size ≠ 0
  · simp only [if_pos h, EStateM.run_bind, Machine.run_onMem, EStateM.run_pure, MemOp.addr]
    cases (raiseException (β := β) .loadMisalign addr).run m <;> rfl
  · simp only [if_neg h, EStateM.run_bind, Machine.run_onMem]
    cases (MMUSys.vaddrReadBuffer m.core.mmuEnv addr size
      (m.core.mmuEnv.uninit size.toNat)).run m.mem with
    | error e s => rfl
    | ok r s =>
        obtain ⟨va_err, buf⟩ := r
        cases va_err with
        | accessOk => rfl
        | accessFault | pageFault | misAlign =>
            simp only [VAddrRWFeedback.cause, outcome, MemOp.addr, reduceCtorEq, if_false,
              EStateM.run_bind, EStateM.run_pure]
            cases (raiseException (β := β) _ addr).run { m with mem := s } <;> rfl

theorem storeFrom_eq (rs2 : BitVec 5) (addr size : Word) (m : Machine β) :
    (storeFrom rs2 addr size).run m = ((store addr size (m.core.GPR rs2)).exec 0).run m := by
  simp only [storeFrom, memWrite, exec, perform, EStateM.run_bind, EStateM.run_get]
  by_cases h : addr % size ≠ 0
  · simp only [if_pos h, EStateM.run_bind, Machine.run_onMem, EStateM.run_pure, MemOp.addr]
    cases (raiseException (β := β) .storeMisalign addr).run m <;> rfl
  · simp only [if_neg h, EStateM.run_bind, Machine.run_onMem]
    cases (MMUSys.vaddrWriteBuffer m.core.mmuEnv addr size
      (Bytes.ofWord size.toNat (m.core.GPR rs2))).run m.mem with
    | error e s => rfl
    | ok va_err s =>
        cases va_err with
        | accessOk => rfl
        | accessFault | pageFault | misAlign =>
            simp only [VAddrRWFeedback.cause, outcome, MemOp.addr, reduceCtorEq, if_false,
              EStateM.run_bind, EStateM.run_pure]
            cases (raiseException (β := β) _ addr).run { m with mem := s } <;> rfl

theorem loadReservedInto_eq (rd : BitVec 5) (addr size : Word) :
    loadReservedInto (β := β) rd addr size = (loadReserved addr size).exec rd := by
  funext m
  show (loadReservedInto rd addr size).run m = ((loadReserved addr size).exec rd).run m
  simp only [loadReservedInto, exec, perform, EStateM.run_bind, EStateM.run_get,
    Machine.run_onMem]
  cases (MMUSys.vaddrLoadReserved m.core.mmuEnv addr size
    (m.core.mmuEnv.uninit size.toNat)).run m.mem with
  | error e s => rfl
  | ok r s => by_cases h : r.1 = .ok <;> simp [h, outcome, MemOp.addr]

theorem storeConditionalInto_eq (rd rs2 : BitVec 5) (addr size : Word) (m : Machine β) :
    (storeConditionalInto rd rs2 addr size).run m
      = ((storeConditional addr size (m.core.GPR rs2)).exec rd).run m := by
  simp only [storeConditionalInto, exec, perform, EStateM.run_bind, EStateM.run_get,
    Machine.run_onMem]
  cases (MMUSys.vaddrStoreConditional m.core.mmuEnv addr size
    (Bytes.ofWord size.toNat (m.core.GPR rs2))).run m.mem with
  | error e s => rfl
  | ok r s => by_cases h : r.1 = .ok <;> simp [h, outcome, MemOp.addr]

theorem atomicInto_eq (rd rs2 : BitVec 5) (addr size : Word) (op : AMOFunct) (m : Machine β) :
    (atomicInto rd rs2 addr size op).run m
      = ((amo op addr size (m.core.GPR rs2)).exec rd).run m := by
  simp only [atomicInto, exec, perform, EStateM.run_bind, EStateM.run_get, Machine.run_onMem]
  cases (MMUSys.vaddrAtomicMemOperation m.core.mmuEnv addr size op
    (m.core.GPR rs2)).run m.mem with
  | error e s => rfl
  | ok r s => by_cases h : r.1 = .ok <;> simp [h, outcome, MemOp.addr]

end MemOp

end MEmu
