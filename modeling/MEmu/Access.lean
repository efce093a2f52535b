import MEmu.Quiet

/-!
# One path for every data access

The loads, the stores and the atomic accesses each repeat the way to their bus
access.  `MemOp.access` is the access of one operation at a physical address, and
`MemOp.perform_eq` says that `MemOp.perform` is the same path for all of them:
alignment, translation or none, then `access`.  A property of data accesses is
proved from the path once and from `access` case by case (`MemOp.perform_sat`).
-/

namespace MEmu

open Run (Sat Keeps bind_congr_of)

variable {β : Type} [MMIOBus β]

/-! ## Renaming the faults of the paged path -/

/-- `pagedAddr` treats its faults as names. -/
theorem MMUSys.pagedAddr_map {φ ψ : Type} (g : φ → ψ) (env : MMUEnv) (begin_addr size : Word)
    (misalign pgfault : φ) (check : SV39TLBEntry → Option φ) :
    pagedAddr (β := β) env begin_addr size (g misalign) (g pgfault) (fun e => (check e).map g)
      = (do return (← pagedAddr env begin_addr size misalign pgfault check).mapError g) := by
  unfold pagedAddr
  simp only [bind_pure_comp]
  split
  · rfl
  · simp only [map_bind]
    refine bind_congr fun r => ?_
    cases r with
    | none => rfl
    | some i =>
        simp only [map_bind]
        refine bind_congr fun s => ?_
        cases check (s.mmu.tlb i) with
        | none => simp [Except.mapError]
        | some fault => rfl

/-- A fault of the paged path is one of those it was given. -/
theorem pagedAddr_fault {φ : Type} {env : MMUEnv} {begin_addr size : Word} {misalign pgfault : φ}
    {check : SV39TLBEntry → Option φ} {P : φ → Prop} (hmisalign : P misalign)
    (hpgfault : P pgfault) (hcheck : ∀ e fault, check e = some fault → P fault)
    (s : MMUSys β) :
    Sat s (MMUSys.pagedAddr env begin_addr size misalign pgfault check)
      (fun r _ => ∀ fault, r = .error fault → P fault) (fun _ _ => True) := by
  refine pagedAddr_sat (T := fun _ _ => True) (fun _ => Sat.trivial) (fun _ => ?_) (fun _ _ => ?_)
    (fun i s' fault _ h => ?_) (fun _ _ _ _ => trivial) fun _ _ _ _ => ?_
  · rintro _ ⟨⟩
    exact hmisalign
  · rintro _ ⟨⟩
    exact hpgfault
  · rintro _ ⟨⟩
    exact hcheck _ _ h
  · rintro _ ⟨⟩

theorem loadCheck_fault {φ : Type} {env : MMUEnv} {pgfault accfault fault : φ} {e : SV39TLBEntry}
    (h : loadCheck env pgfault accfault e = some fault) : fault = pgfault ∨ fault = accfault := by
  unfold loadCheck at h
  split at h
  · exact .inl (Option.some.inj h).symm
  split at h
  · exact .inl (Option.some.inj h).symm
  split at h
  · exact .inr (Option.some.inj h).symm
  · cases h

theorem storeCheck_fault {φ : Type} {env : MMUEnv} {pgfault fault : φ} {e : SV39TLBEntry}
    (h : storeCheck env pgfault e = some fault) : fault = pgfault := by
  unfold storeCheck at h
  split at h
  · exact (Option.some.inj h).symm
  split at h
  · exact (Option.some.inj h).symm
  split at h
  · exact (Option.some.inj h).symm
  · cases h

theorem fetchCheck_fault {env : MMUEnv} {fault : VAddrRWFeedback} {e : SV39TLBEntry}
    (h : fetchCheck env e = some fault) : fault = .pageFault := by
  unfold fetchCheck at h
  split at h
  · exact (Option.some.inj h).symm
  split at h
  · exact (Option.some.inj h).symm
  · cases h

namespace MemOp

/-! ## The parameters of an operation -/

def size : MemOp → Word
  | load _ size _ => size
  | store _ size _ => size
  | loadReserved _ size => size
  | storeConditional _ size _ => size
  | amo _ _ size _ => size

/-- The operation is given to the MMU only at an aligned address. -/
def checksAlign : MemOp → Bool
  | load .. | store .. => true
  | _ => false

def misalign : MemOp → ExecFeedbackCode
  | load .. => .loadMisalign
  | _ => .storeMisalign

/-- The cause of a page fault.  A load-reserved faults as a store does. -/
def pgfault : MemOp → ExecFeedbackCode
  | load .. => .loadPgfault
  | _ => .storePgfault

def accFault : MemOp → ExecFeedbackCode
  | load .. => .loadAccFault
  | _ => .storeAccFault

/-- The check on the entry, which is that of a load for the two operations that
only read. -/
def check (env : MMUEnv) (op : MemOp) : SV39TLBEntry → Option ExecFeedbackCode :=
  match op with
  | load .. | loadReserved .. => loadCheck env op.pgfault op.accFault
  | _ => storeCheck env op.pgfault

/-- The cause of a failed write by a store or a store-conditional. -/
def writeFault (bare : Bool) : ExecFeedbackCode := if bare then .storeAccFault else .storePgfault

/-- The access of the operation at a physical address, which is the virtual one
where `bare` holds. -/
def access (env : MMUEnv) (bare : Bool) (paddr : Word) :
    MemOp → MMUM β (Except ExecFeedbackCode Word)
  | load _ size signed => do
      let r ← busRead .load paddr size (env.uninit size.toNat)
      pure (outcome (if r.1 = .ok then .ok else .loadAccFault) (Bytes.extend signed size.toNat r.2))
  | store _ size data => do
      let fb ← busWrite .store paddr size (Bytes.ofWord size.toNat data)
      pure (outcome (if fb = .ok then .ok else writeFault bare) 0)
  | loadReserved addr size => do
      let r ← MMUSys.reservedRead env addr paddr size (env.uninit size.toNat)
      pure (outcome r.1 (Bytes.extend true size.toNat r.2))
  | storeConditional addr size data => do
      let r ← MMUSys.conditionalWrite env addr paddr size (Bytes.ofWord size.toNat data)
        (writeFault bare)
      pure (outcome r.1 (if r.2 then 1 else 0))
  | amo op _ size src => do
      let r ← MMUSys.paAmoOp env paddr size op src
      pure (outcome (if r.1 then .ok else .storeAccFault) r.2)

/-- The path that the operations share. -/
def path (env : MMUEnv) (op : MemOp) : MMUM β (Except ExecFeedbackCode Word) :=
  if op.checksAlign = true ∧ op.addr % op.size ≠ 0 then pure (.error op.misalign)
  else if env.bareData then op.access env true op.addr
  else do
    match ← MMUSys.pagedAddr env op.addr op.size op.misalign op.pgfault (op.check env) with
    | .error fault => pure (.error fault)
    | .ok paddr => op.access env false paddr

theorem loadCheck_map {φ ψ : Type} (g : φ → ψ) (env : MMUEnv) (pgfault accfault : φ)
    (e : SV39TLBEntry) :
    (loadCheck env pgfault accfault e).map g = loadCheck env (g pgfault) (g accfault) e := by
  simp only [loadCheck, apply_ite (Option.map g), Option.map_some, Option.map_none]

theorem storeCheck_map {φ ψ : Type} (g : φ → ψ) (env : MMUEnv) (pgfault : φ)
    (e : SV39TLBEntry) : (storeCheck env pgfault e).map g = storeCheck env (g pgfault) e := by
  simp only [storeCheck, apply_ite (Option.map g), Option.map_some, Option.map_none]

theorem perform_eq (env : MMUEnv) (op : MemOp) : op.perform (β := β) env = op.path env := by
  cases op with
  | load addr size signed =>
      have hmap := MMUSys.pagedAddr_map (β := β)
        (VAddrRWFeedback.cause .loadAccFault .loadMisalign .loadPgfault) env addr size .misAlign
        .pageFault (loadCheck env .pageFault .accessFault)
      simp only [loadCheck_map, VAddrRWFeedback.cause] at hmap
      simp only [perform, path, MemOp.addr, MemOp.size, checksAlign, misalign, pgfault, accFault,
        access, MMUSys.vaddrReadBuffer, check, true_and, hmap]
      split
      · rfl
      split
      · simp only [MMUSys.readAt, bind_assoc, pure_bind]
        refine bind_congr fun r => ?_
        by_cases h : r.1 = .ok <;> simp [h, VAddrRWFeedback.cause]
      · simp only [bind_assoc, pure_bind]
        refine bind_congr_of (pagedAddr_fault (P := fun f => f ≠ .accessOk) (by decide)
          (by decide) fun e f h => ?_) fun r hr => ?_
        · rcases loadCheck_fault h with rfl | rfl <;> decide
        cases r with
        | error fault => cases fault <;> first | rfl | exact absurd rfl (hr _ rfl)
        | ok paddr =>
            simp only [MMUSys.readAt, bind_assoc, pure_bind, Except.mapError]
            refine bind_congr fun r => ?_
            by_cases h : r.1 = .ok <;> simp [h, VAddrRWFeedback.cause]
  | store addr size data =>
      have hmap := MMUSys.pagedAddr_map (β := β)
        (VAddrRWFeedback.cause .storeAccFault .storeMisalign .storePgfault) env addr size .misAlign
        .pageFault (storeCheck env .pageFault)
      simp only [storeCheck_map, VAddrRWFeedback.cause] at hmap
      simp only [perform, path, MemOp.addr, MemOp.size, checksAlign, misalign, pgfault,
        access, MMUSys.vaddrWriteBuffer, check, true_and, hmap]
      split
      · rfl
      split
      · simp only [bind_assoc, pure_bind]
        refine bind_congr fun fb => ?_
        by_cases h : fb = .ok <;> simp [h, VAddrRWFeedback.cause, writeFault]
      · simp only [bind_assoc, pure_bind]
        refine bind_congr_of (pagedAddr_fault (P := fun f => f ≠ .accessOk) (by decide)
          (by decide) fun e f h => ?_) fun r hr => ?_
        · rw [storeCheck_fault h]
          decide
        cases r with
        | error fault => cases fault <;> first | rfl | exact absurd rfl (hr _ rfl)
        | ok paddr =>
            simp only [bind_assoc, pure_bind, Except.mapError]
            refine bind_congr fun fb => ?_
            by_cases h : fb = .ok <;> simp [h, VAddrRWFeedback.cause, writeFault]
  | loadReserved addr size =>
      simp only [perform, path, MemOp.addr, MemOp.size, checksAlign, misalign, pgfault, accFault,
        access, MMUSys.vaddrLoadReserved, check, Bool.false_eq_true, false_and, if_false]
      split
      · rfl
      · simp only [bind_assoc]
        refine bind_congr_of (pagedAddr_fault (P := fun f => f ≠ .ok) (by decide) (by decide)
          fun e f h => ?_) fun r hr => ?_
        · rcases loadCheck_fault h with rfl | rfl <;> decide
        · cases r with
          | error fault => simp [outcome, hr fault rfl]
          | ok paddr => rfl
  | storeConditional addr size data =>
      simp only [perform, path, MemOp.addr, MemOp.size, checksAlign, misalign, pgfault, access,
        MMUSys.vaddrStoreConditional, check, Bool.false_eq_true, false_and, if_false]
      split
      · rfl
      · simp only [bind_assoc]
        refine bind_congr_of (pagedAddr_fault (P := fun f => f ≠ .ok) (by decide) (by decide)
          fun e f h => ?_) fun r hr => ?_
        · rw [storeCheck_fault h]
          decide
        · cases r with
          | error fault => simp [outcome, hr fault rfl]
          | ok paddr => rfl
  | amo op addr size src =>
      simp only [perform, path, MemOp.addr, MemOp.size, checksAlign, misalign, pgfault, access,
        MMUSys.vaddrAtomicMemOperation, check, Bool.false_eq_true, false_and, if_false]
      split
      · simp only [bind_assoc, pure_bind]
      · simp only [bind_assoc]
        refine bind_congr_of (pagedAddr_fault (P := fun f => f ≠ .ok) (by decide) (by decide)
          fun e f h => ?_) fun r hr => ?_
        · rw [storeCheck_fault h]
          decide
        · cases r with
          | error fault => simp [outcome, hr fault rfl]
          | ok paddr => simp only [bind_assoc, pure_bind]

/-! ## Properties of the path -/

/-- The causes of a data access. -/
def IsDataFault : ExecFeedbackCode → Prop
  | .loadMisalign | .loadAccFault | .loadPgfault => True
  | .storeMisalign | .storeAccFault | .storePgfault => True
  | _ => False

theorem misalign_isDataFault (op : MemOp) : IsDataFault op.misalign := by
  cases op <;> trivial

theorem pgfault_isDataFault (op : MemOp) : IsDataFault op.pgfault := by
  cases op <;> trivial

theorem accFault_isDataFault (op : MemOp) : IsDataFault op.accFault := by
  cases op <;> trivial

theorem check_fault {env : MMUEnv} {op : MemOp} {e : SV39TLBEntry} {fault : ExecFeedbackCode}
    (h : op.check env e = some fault) : fault = op.pgfault ∨ fault = op.accFault := by
  cases op with
  | load | loadReserved => exact loadCheck_fault h
  | store | storeConditional | amo => exact .inl (storeCheck_fault h)

/-- The access gets as far as the entry lookup. -/
structure Translates (env : MMUEnv) (op : MemOp) : Prop where
  paged : env.bareData = false
  aligned : op.checksAlign = true → op.addr % op.size = 0
  inPage : InPage op.addr op.size

/-- A property of a data access, from the entry lookup and the access. -/
theorem perform_sat {env : MMUEnv} {op : MemOp} {s : MMUSys β}
    {T : Option TLBIndex → MMUSys β → Prop}
    {Q : Except ExecFeedbackCode Word → MMUSys β → Prop} {E : Abort → MMUSys β → Prop}
    (hget : op.Translates env → Sat s (MMUSys.getTLBEntry env op.addr) T E)
    (hmisalign : Q (.error op.misalign) s)
    (hfault : ∀ r s' fault, T r s' → IsDataFault fault → Q (.error fault) s')
    (hsize : ∀ i s', T (some i) s' → (s'.mmu.tlb i).pagesize.bytes = 0 → E .pageSize s')
    (hbare : env.bareData = true → Sat s (op.access env true op.addr) Q E)
    (hpaged : ∀ i s', env.bareData = false → T (some i) s' → op.check env (s'.mmu.tlb i) = none →
      Sat s' (op.access env false
        ((s'.mmu.tlb i).ppa + op.addr % (s'.mmu.tlb i).pagesize.bytes)) Q E) :
    Sat s (op.perform env) Q E := by
  rw [perform_eq]
  refine .ite (fun _ => .pure hmisalign) fun halign => .ite hbare fun hb => ?_
  have hb : env.bareData = false := by simpa using hb
  have haligned (hcheck : op.checksAlign = true) : op.addr % op.size = 0 := by
    by_contra hne
    exact halign ⟨hcheck, hne⟩
  refine .bind (pagedAddr_sat (fun hin => hget ⟨hb, haligned, hin⟩) (fun _ => .pure hmisalign)
    (fun s' h => .pure (hfault none s' _ h op.pgfault_isDataFault)) (fun i s' fault h hc => ?_)
    hsize fun i s' h hc => hpaged i s' hb h hc)
  refine .pure (hfault (some i) s' fault h ?_)
  rcases check_fault hc with rfl | rfl
  · exact op.pgfault_isDataFault
  · exact op.accFault_isDataFault

/-- A cause in place of a value is one of a data access. -/
def ResultOk (r : Except ExecFeedbackCode Word) : Prop := ∀ cause, r = .error cause → IsDataFault cause

theorem outcome_resultOk {exc : ExecFeedbackCode} {value : Word}
    (h : exc = .ok ∨ IsDataFault exc) : ResultOk (outcome exc value) := by
  intro cause hr
  rcases h with rfl | h
  · cases hr
  · unfold outcome at hr
    split at hr <;> cases hr
    exact h

theorem access_resultOk (env : MMUEnv) (bare : Bool) (paddr : Word) (op : MemOp)
    (s : MMUSys β) :
    Sat s (op.access env bare paddr) (fun r _ => ResultOk r) (fun _ _ => True) := by
  have hwrite : IsDataFault (writeFault bare) := by cases bare <;> trivial
  cases op with
  | load addr size signed =>
      refine .bind_any fun r _ => .pure (outcome_resultOk ?_)
      split <;> simp [IsDataFault]
  | store addr size data =>
      refine .bind_any fun r _ => .pure (outcome_resultOk ?_)
      split
      · exact .inl rfl
      · exact .inr hwrite
  | loadReserved addr size =>
      refine .bind (.bind_any fun _ _ => ?_)
      refine .bind_any fun r _ => ?_
      refine .pure (.pure (outcome_resultOk ?_))
      split <;> simp [IsDataFault]
  | storeConditional addr size data =>
      refine .bind (.bind (.get (.ite (fun _ => ?_) fun _ => ?_)))
      · refine .bind_any fun _ _ => ?_
        exact .pure (.pure (outcome_resultOk (.inl rfl)))
      · refine .bind_any fun _ _ => ?_
        refine .bind_any fun r _ => ?_
        refine .pure (.pure (outcome_resultOk ?_))
        split
        · exact .inl rfl
        · exact .inr hwrite
  | amo op addr size src =>
      refine .bind_any fun r _ => .pure (outcome_resultOk ?_)
      split <;> simp [IsDataFault]

/-- A data access that fails does so with one of its own causes. -/
theorem perform_resultOk (env : MMUEnv) (op : MemOp) (s : MMUSys β) :
    Sat s (op.perform env) (fun r _ => ResultOk r) (fun _ _ => True) := by
  refine perform_sat (fun _ => Sat.trivial) ?_ (fun _ _ fault _ h => ?_) (fun _ _ _ _ => trivial)
    (fun _ => access_resultOk env true op.addr op s) fun _ s' _ _ _ =>
      access_resultOk env false _ op s'
  · rintro _ ⟨⟩
    exact op.misalign_isDataFault
  · rintro _ ⟨⟩
    exact h

/-! ## The trace of an access -/

/-- What the operation uses the bus for. -/
def kinds : MemOp → List AccessKind
  | load .. => [.load]
  | store .. => [.store]
  | loadReserved .. => [.loadReserved]
  | storeConditional .. => [.storeConditional]
  | amo .. => [.amoRead, .amoWrite]

/-- The accesses that an operation adds to the log, and what they say of the
reservation: one is made with a load-reserved, and a store-conditional has one. -/
structure Traced (op : MemOp) (paddr : Word) (s s' : MMUSys β) (new : List BusAccess) : Prop where
  log : s'.busLog = s.busLog ++ new
  made : ∀ a ∈ new, a.kind ∈ op.kinds ∧ a.addr = paddr ∧ a.size = op.size
  reserved : s'.mmu.lr_valid = true → s.mmu.lr_valid = true ∨ ∃ a ∈ new, a.kind = .loadReserved
  conditional : ∀ a ∈ new, a.kind = .storeConditional → s.mmu.lr_valid = true

omit [MMIOBus β] in
/-- One bus access by an operation that neither makes nor needs a reservation. -/
theorem Traced.one {op : MemOp} {paddr : Word} {s : MMUSys β} {kind : AccessKind}
    (hkind : kind ∈ op.kinds) (hsc : kind ≠ .storeConditional) (b : β) (done : Bool) :
    Traced op paddr s
      { s with sysBus := b, busLog := s.busLog ++ [⟨kind, paddr, op.size, done⟩] }
      [⟨kind, paddr, op.size, done⟩] := by
  refine ⟨rfl, fun a ha => ?_, .inl, fun a ha hk => ?_⟩ <;> obtain rfl := List.mem_singleton.mp ha
  · exact ⟨hkind, rfl, rfl⟩
  · exact absurd hk hsc

/-- Every access of an operation is at the address it is given. -/
theorem access_traced (env : MMUEnv) (bare : Bool) (paddr : Word) (op : MemOp) (s : MMUSys β) :
    Sat s (op.access env bare paddr) (fun _ s' => ∃ new, Traced op paddr s s' new)
      (fun _ s' => ∃ new, Traced op paddr s s' new) := by
  cases op with
  | load addr size signed =>
      refine .bind (busCall_sat (fun r b _ => .pure ?_) fun e b _ => ?_)
      · exact ⟨_, .one (List.mem_singleton.mpr rfl) (by decide) b _⟩
      · exact ⟨_, .one (List.mem_singleton.mpr rfl) (by decide) b _⟩
  | store addr size data =>
      refine .bind (busCall_sat (fun r b _ => .pure ?_) fun e b _ => ?_)
      · exact ⟨_, .one (List.mem_singleton.mpr rfl) (by decide) b _⟩
      · exact ⟨_, .one (List.mem_singleton.mpr rfl) (by decide) b _⟩
  | loadReserved addr size =>
      have htrace (b : β) (done : Bool) : Traced (.loadReserved addr size) paddr s
          { s with
            mmu := s.mmu.reserve env addr size
            sysBus := b
            busLog := s.busLog ++ [⟨.loadReserved, paddr, size, done⟩] }
          [⟨.loadReserved, paddr, size, done⟩] := by
        refine ⟨rfl, fun a ha => ?_, fun _ => .inr ⟨_, List.mem_singleton.mpr rfl, rfl⟩, fun a ha hk => ?_⟩
          <;> obtain rfl := List.mem_singleton.mp ha
        · exact ⟨List.mem_singleton.mpr rfl, rfl, rfl⟩
        · cases hk
      refine .bind (.bind (MMUSys.onMMU_sat (.modify ?_)))
      refine .bind (busCall_sat (fun r b _ => .pure (.pure ?_)) fun e b _ => ?_)
      · exact ⟨_, htrace b _⟩
      · exact ⟨_, htrace b _⟩
  | storeConditional addr size data =>
      refine .bind (.bind (.get (.ite (fun _ => ?_) fun hkept => ?_)))
      · refine .bind (MMUSys.onMMU_sat (.modify (.pure (.pure ⟨[], ?_, nofun, ?_, nofun⟩))))
        · exact (List.append_nil _).symm
        · intro hv
          split at hv
          · cases hv
          · exact .inl hv
      · have hvalid : s.mmu.lr_valid = true := by
          cases hv : s.mmu.lr_valid with
          | true => rfl
          | false => simp [MMUSys.reservationLost, hv] at hkept
        have htrace (b : β) (done : Bool) : Traced (.storeConditional addr size data) paddr s
            { s with
              mmu := { s.mmu with lr_valid := false }
              sysBus := b
              busLog := s.busLog ++ [⟨.storeConditional, paddr, size, done⟩] }
            [⟨.storeConditional, paddr, size, done⟩] := by
          refine ⟨rfl, fun a ha => ?_, fun _ => .inl hvalid, fun _ _ _ => hvalid⟩
          obtain rfl := List.mem_singleton.mp ha
          exact ⟨List.mem_singleton.mpr rfl, rfl, rfl⟩
        refine .bind (MMUSys.onMMU_sat (.modify ?_))
        refine .bind (busCall_sat (fun r b _ => .pure (.pure ?_)) fun e b _ => ?_)
        · exact ⟨_, htrace b _⟩
        · exact ⟨_, htrace b _⟩
  | amo op addr size src =>
      have hread : AccessKind.amoRead ∈ (MemOp.amo op addr size src).kinds := List.mem_cons_self
      have hwrite : AccessKind.amoWrite ∈ (MemOp.amo op addr size src).kinds :=
        List.mem_cons_of_mem _ List.mem_cons_self
      refine .bind (.bind (busCall_sat (fun r b _ => ?_) fun e b _ => ?_))
      · refine .ite (fun _ => .pure (.pure ⟨_, .one hread (by decide) b _⟩)) fun _ => ?_
        dsimp only
        split
        · exact .throw ⟨_, .one hread (by decide) b _⟩
        · have htrace (b' : β) (done done' : Bool) : Traced (.amo op addr size src) paddr s
              { s with
                sysBus := b'
                busLog := s.busLog ++ [⟨.amoRead, paddr, size, done⟩] ++
                  [⟨.amoWrite, paddr, size, done'⟩] }
              [⟨.amoRead, paddr, size, done⟩, ⟨.amoWrite, paddr, size, done'⟩] := by
            refine ⟨List.append_assoc .., fun a ha => ?_, .inl, fun a ha hk => ?_⟩
            · rcases List.mem_cons.mp ha with rfl | ha
              · exact ⟨hread, rfl, rfl⟩
              · obtain rfl := List.mem_singleton.mp ha
                exact ⟨hwrite, rfl, rfl⟩
            · rcases List.mem_cons.mp ha with rfl | ha
              · cases hk
              · obtain rfl := List.mem_singleton.mp ha
                cases hk
          refine .bind (busCall_sat (fun r' b' _ => .pure (.pure ?_)) fun e b' _ => ?_)
          · exact ⟨_, htrace b' _ _⟩
          · exact ⟨_, htrace b' _ _⟩
      · exact ⟨_, .one hread (by decide) b _⟩

end MemOp

end MEmu
