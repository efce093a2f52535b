import MEmu.CoreDebug
import MEmu.Permission
import MEmu.RamAccess

/-!
# The memory that a debugger sees

`MemRead_CoreDebugAPI` decides by itself whether an address is translated, from the mode of the
last step.  The program's next load is made in the mode of the next step, and with the rights that
`MPRV` gives it.  The two read the same bytes where both decisions come out alike and the bus
answers for a range of bytes as it does for each of them.
-/

namespace MEmu

open Machine (onMem onBus bareDebug readBytes)
open Run (Sat)

/-! ## What the program sees -/

section View

variable {β : Type} [MMIOBus β]

/-- Loads of one byte at `n` addresses, one after the other: the bytes, or the cause of the
first that fails. -/
def loadBytes (env : MMUEnv) : Nat → Word → MMUM β (Except ExecFeedbackCode (List Byte))
  | 0, _ => pure (.ok [])
  | n + 1, addr => do
      match ← (MemOp.load addr 1 false).perform env with
      | .error cause => pure (.error cause)
      | .ok value =>
          match ← loadBytes env n (addr + 1) with
          | .error cause => pure (.error cause)
          | .ok bytes => pure (.ok (value.setWidth 8 :: bytes))

/-- A step whose instruction is such a load puts the byte into its register. -/
theorem stepsInto_of_loadBytes {m : Machine β} {s s' : MMUSys β} {inst : BitVec 32}
    {addr : Word} {rd : BitVec 5} {y : Byte}
    (hf : fetchInst.run m = .ok (some inst) ⟨m.begun, s⟩)
    (hop : memOpOf inst m.begun = some (.load addr 1 false, rd))
    (h : (loadBytes m.begun.mmuEnv 1 addr).run s = .ok (.ok [y]) s') :
    ∃ value, value.setWidth 8 = y ∧
      StepsInto m ⟨(m.begun.setGPR rd value).retire (isCompressedInst inst) .plain, s'⟩ := by
  rw [loadBytes, EStateM.run_bind] at h
  cases hr : ((MemOp.load addr 1 false).perform m.begun.mmuEnv).run s with
  | error e s₁ =>
      rw [hr] at h
      cases h
  | ok r s₁ =>
      rw [hr] at h
      cases r with
      | error cause => cases h
      | ok value =>
          cases h
          exact ⟨value, rfl, stepsInto_of_memOp hf hop hr⟩

/-- The debugger reads the bytes that the loads of the next instructions would, and reads none
where one of them would fail. -/
def SeesAlike (m : Machine β) (start_addr size : Word) (buffer : List Byte) : Prop :=
  ∀ bytes, (∃ m', (Machine.memRead start_addr size buffer).run m = .ok (.ok, bytes) m') ↔
    ∃ s, (loadBytes m.begun.mmuEnv size.toNat start_addr).run m.mem = .ok (.ok bytes) s

/-- The decisions of the debugger and of the next load come out alike: whether the address is
translated, and if so, which pages may be read. -/
structure ViewsAlike (c : RV64Core) : Prop where
  translated : bareDebug c = c.beginStep.mmuEnv.bareData
  user : bareDebug c = false →
    (c.currentPrivMode = .uMode ↔ c.beginStep.mmuEnv.priv = .uMode)
  supervisor : bareDebug c = false → MStatus.sum c.status = false →
    (c.currentPrivMode = .sMode ↔ c.nextPrivMode = .sMode)

/-- A read of the byte at `addr` ends the same whatever the buffer held. -/
def ReadsByte (b : β) (addr : Word) : Prop :=
  (∃ y b', ∀ x, (MMIOBus.paddrReadBuffer addr 1 [x]).run b = .ok (.ok, [y]) b') ∨
    ∀ x data b', (MMIOBus.paddrReadBuffer addr 1 [x]).run b ≠ .ok (.ok, data) b'

/-- Where a load of one byte goes, or the fault that ends it before. -/
def bytePlace (env : MMUEnv) (addr : Word) : MMUM β (Except VAddrRWFeedback Word) :=
  if env.bareData then pure (.ok addr)
  else MMUSys.pagedAddr env addr 1 .misAlign .pageFault (loadCheck env .pageFault .accessFault)

/-- Every byte that is read on the way, from `addr` on, is read the same whatever the buffer
held. -/
def BytesRead (env : MMUEnv) : Nat → Word → MMUSys β → Prop
  | 0, _, _ => True
  | n + 1, addr, s =>
      (∀ paddr s₁, (bytePlace env addr).run s = .ok (.ok paddr) s₁ → ReadsByte s₁.sysBus paddr) ∧
        ∀ x data s₁, (MMUSys.vaddrReadBuffer env addr 1 [x]).run s = .ok (.accessOk, data) s₁ →
          BytesRead env n (addr + 1) s₁

/-! ## One byte -/

variable {env env' : MMUEnv} {addr paddr : Word} {s s₁ : MMUSys β}

/-- The read returns the byte `y` whatever the buffer held. -/
def Returns (x : Byte → MMUM β (VAddrRWFeedback × List Byte)) (s : MMUSys β) (y : Byte)
    (s' : MMUSys β) : Prop :=
  ∀ b, (x b).run s = .ok (.accessOk, [y]) s'

/-- The read returns no byte, whatever the buffer held. -/
def NeverReturns (x : Byte → MMUM β (VAddrRWFeedback × List Byte)) (s : MMUSys β) : Prop :=
  ∀ b data s', (x b).run s ≠ .ok (.accessOk, data) s'

theorem readAt_returns {y : Byte} {b' : β}
    (h : ∀ x, (MMIOBus.paddrReadBuffer paddr 1 [x]).run s.sysBus = .ok (.ok, [y]) b') :
    ∃ s', Returns (fun b => MMUSys.readAt .load paddr 1 [b]) s y s' ∧ s'.sysBus = b' := by
  refine ⟨{ s with
    sysBus := b'
    busLog := s.busLog ++ [⟨.load, paddr, 1, true⟩] }, fun b => ?_, rfl⟩
  simp only [MMUSys.readAt, EStateM.run_bind, busRead, run_busCall, h b]
  rfl

theorem readAt_neverReturns
    (h : ∀ x data b', (MMIOBus.paddrReadBuffer paddr 1 [x]).run s.sysBus ≠ .ok (.ok, data) b') :
    NeverReturns (fun b => MMUSys.readAt .load paddr 1 [b]) s := by
  intro b data s' hr
  simp only [MMUSys.readAt, EStateM.run_bind, busRead, run_busCall] at hr
  cases hread : (MMIOBus.paddrReadBuffer paddr 1 [b]).run s.sysBus with
  | error e b' =>
      rw [hread] at hr
      cases hr
  | ok r b' =>
      obtain ⟨fb, data'⟩ := r
      rw [hread] at hr
      by_cases hok : fb = .ok
      · subst hok
        exact h b data' b' hread
      · simp [hok] at hr

/-- The end of a read of one byte, once it is known where it goes. -/
def byteEnd (buffer : List Byte) :
    Except VAddrRWFeedback Word → MMUM β (VAddrRWFeedback × List Byte)
  | .error fault => pure (fault, buffer)
  | .ok paddr => MMUSys.readAt .load paddr 1 buffer

theorem vaddrReadBuffer_eq (env : MMUEnv) (addr : Word) (buffer : List Byte) :
    MMUSys.vaddrReadBuffer (β := β) env addr 1 buffer
      = bytePlace env addr >>= byteEnd buffer := by
  rw [MMUSys.vaddrReadBuffer, bytePlace]
  by_cases hb : env.bareData = true
  · rw [if_pos hb, if_pos hb, pure_bind, byteEnd]
  · rw [if_neg hb, if_neg hb]
    refine bind_congr fun place => ?_
    cases place <;> rfl

theorem bytePlace_fault (env : MMUEnv) (addr : Word) (s : MMUSys β) :
    Sat s (bytePlace env addr) (fun r _ => ∀ fault, r = .error fault → fault ≠ .accessOk)
      (fun _ _ => True) := by
  refine .ite (fun _ => .pure nofun) fun _ => ?_
  refine pagedAddr_fault VAddrRWFeedback.noConfusion VAddrRWFeedback.noConfusion
    (fun e fault h => ?_) s
  rcases loadCheck_fault h with rfl | rfl <;> exact VAddrRWFeedback.noConfusion

/-- A byte is read where it is placed. -/
theorem run_vaddrReadBuffer_of_place (h : (bytePlace env addr).run s = .ok (.ok paddr) s₁)
    (buffer : List Byte) :
    (MMUSys.vaddrReadBuffer env addr 1 buffer).run s
      = (MMUSys.readAt .load paddr 1 buffer).run s₁ := by
  rw [vaddrReadBuffer_eq, EStateM.run_bind, h]
  rfl

/-- A byte without a place is not read. -/
theorem neverReturns_of_no_place
    (h : ∀ paddr s₁, (bytePlace env addr).run s ≠ .ok (.ok paddr) s₁) :
    NeverReturns (fun b => MMUSys.vaddrReadBuffer env addr 1 [b]) s := by
  intro b data s' hr
  simp only [vaddrReadBuffer_eq, EStateM.run_bind] at hr
  cases hplace : (bytePlace env addr).run s with
  | error e s₁ =>
      rw [hplace] at hr
      cases hr
  | ok place s₁ =>
      cases place with
      | ok paddr => exact h paddr s₁ hplace
      | error fault =>
          rw [hplace] at hr
          have hne := (bytePlace_fault env addr s).ok hplace fault rfl
          cases hr
          exact hne rfl

/-- The bytes of the two environments have the same places. -/
def PlacesAlike (env env' : MMUEnv) : Prop :=
  ∀ (addr : Word) (s : MMUSys β) (paddr : Word) (s₁ : MMUSys β),
    (bytePlace env addr).run s = .ok (.ok paddr) s₁ ↔
      (bytePlace env' addr).run s = .ok (.ok paddr) s₁

/-- A byte is read alike where its places are. -/
theorem vaddrReadBuffer_cases (hplaces : PlacesAlike (β := β) env env')
    (h : ∀ paddr s₁, (bytePlace env addr).run s = .ok (.ok paddr) s₁ →
      ReadsByte s₁.sysBus paddr) :
    (∃ y s', Returns (fun b => MMUSys.vaddrReadBuffer env addr 1 [b]) s y s' ∧
        Returns (fun b => MMUSys.vaddrReadBuffer env' addr 1 [b]) s y s') ∨
      NeverReturns (fun b => MMUSys.vaddrReadBuffer env addr 1 [b]) s ∧
        NeverReturns (fun b => MMUSys.vaddrReadBuffer env' addr 1 [b]) s := by
  by_cases hplace : ∃ paddr s₁, (bytePlace env addr).run s = .ok (.ok paddr) s₁
  · obtain ⟨paddr, s₁, hplace⟩ := hplace
    have hplace' := (hplaces addr s paddr s₁).mp hplace
    rcases h paddr s₁ hplace with ⟨y, b', hread⟩ | hread
    · obtain ⟨s', hr, -⟩ := readAt_returns hread
      refine .inl ⟨y, s', fun b => ?_, fun b => ?_⟩
      · exact (run_vaddrReadBuffer_of_place hplace [b]).trans (hr b)
      · exact (run_vaddrReadBuffer_of_place hplace' [b]).trans (hr b)
    · have hr := readAt_neverReturns hread
      refine .inr ⟨fun b data s' hrun => ?_, fun b data s' hrun => ?_⟩
      · exact hr b data s' ((run_vaddrReadBuffer_of_place hplace [b]).symm.trans hrun)
      · exact hr b data s' ((run_vaddrReadBuffer_of_place hplace' [b]).symm.trans hrun)
  · have hno (paddr : Word) (s₁ : MMUSys β) :
        (bytePlace env addr).run s ≠ .ok (.ok paddr) s₁ := fun h => hplace ⟨paddr, s₁, h⟩
    refine .inr ⟨neverReturns_of_no_place hno, neverReturns_of_no_place fun paddr s₁ h => ?_⟩
    exact hno paddr s₁ ((hplaces addr s paddr s₁).mpr h)

/-! ## All bytes -/

/-- A load of a byte is a read of it. -/
theorem perform_byte (env : MMUEnv) (addr : Word) :
    (MemOp.load addr 1 false).perform (β := β) env
      = (MMUSys.vaddrReadBuffer env addr 1 [env.indeterminate.setWidth 8] >>= fun r =>
          pure (MemOp.outcome (r.1.cause .loadAccFault .loadMisalign .loadPgfault)
            (Bytes.extend false 1 r.2))) := by
  have huninit : env.uninit 1 = [env.indeterminate.setWidth 8] := by
    simp [MMUEnv.uninit, Bytes.ofWord, BitVec.setWidth_eq_extractLsb']
  have haligned : ¬addr % 1 ≠ 0 := by simp [BitVec.umod_one]
  rw [MemOp.perform, if_neg haligned]
  show (MMUSys.vaddrReadBuffer env addr 1 (env.uninit 1) >>= _) = _
  rw [huninit]
  rfl

theorem setWidth_extend (y : Byte) : (Bytes.extend false 1 [y]).setWidth 8 = y := by
  simp [Bytes.extend, Bytes.toWord]

/-- The loads from a byte on that is read. -/
theorem loadBytes_succ_iff {y : Byte}
    (h : Returns (fun b => MMUSys.vaddrReadBuffer env addr 1 [b]) s y s₁) (n : Nat)
    (bytes : List Byte) :
    (∃ s', (loadBytes env (n + 1) addr).run s = .ok (.ok bytes) s') ↔
      ∃ tail, bytes = y :: tail ∧
        ∃ s', (loadBytes env n (addr + 1)).run s₁ = .ok (.ok tail) s' := by
  have hload := h (env.indeterminate.setWidth 8)
  simp only [loadBytes, perform_byte, EStateM.run_bind, hload, VAddrRWFeedback.cause,
    EStateM.run_pure, outcome_ok, setWidth_extend]
  cases (loadBytes env n (addr + 1)).run s₁ with
  | error e s₂ => simp
  | ok r s₂ =>
      cases r with
      | error cause => simp
      | ok tail => simp [eq_comm]

theorem loadBytes_of_neverReturns
    (h : NeverReturns (fun b => MMUSys.vaddrReadBuffer env addr 1 [b]) s) (n : Nat)
    (bytes : List Byte) (s' : MMUSys β) :
    (loadBytes env (n + 1) addr).run s ≠ .ok (.ok bytes) s' := by
  intro hr
  have hno := h (env.indeterminate.setWidth 8)
  simp only [loadBytes, perform_byte, EStateM.run_bind] at hr
  cases hread : (MMUSys.vaddrReadBuffer env addr 1 [env.indeterminate.setWidth 8]).run s with
  | error e s₁ =>
      rw [hread] at hr
      cases hr
  | ok r s₁ =>
      obtain ⟨fb, data⟩ := r
      rw [hread] at hr
      cases fb with
      | accessOk => exact hno data s₁ hread
      | accessFault | pageFault | misAlign => cases hr

/-- The loop of the debugger from a byte on that is read. -/
theorem readBytes_cons_iff {c : RV64Core} {y : Byte}
    (h : Returns (fun b => MMUSys.vaddrReadBuffer c.mmuEnv addr 1 [b]) s y s₁) (b : Byte)
    (rest bytes : List Byte) :
    (∃ m', (readBytes addr (b :: rest)).run ⟨c, s⟩ = .ok (.ok, bytes) m') ↔
      ∃ tail, bytes = y :: tail ∧
        ∃ m', (readBytes (addr + 1) rest).run ⟨c, s₁⟩ = .ok (.ok, tail) m' := by
  simp only [readBytes, EStateM.run_bind, Machine.run_onMem, h b, ne_eq, not_true_eq_false,
    if_false]
  cases (readBytes (addr + 1) rest).run ⟨c, s₁⟩ with
  | error e m₁ => simp
  | ok r m₁ =>
      obtain ⟨fb, data⟩ := r
      constructor
      · rintro ⟨m', hr⟩
        cases hr
        exact ⟨data, rfl, m₁, rfl⟩
      · rintro ⟨tail, rfl, m', hr⟩
        cases hr
        exact ⟨m₁, rfl⟩

theorem readBytes_of_neverReturns {c : RV64Core}
    (h : NeverReturns (fun b => MMUSys.vaddrReadBuffer c.mmuEnv addr 1 [b]) s) (b : Byte)
    (rest bytes : List Byte) (m' : Machine β) :
    (readBytes addr (b :: rest)).run ⟨c, s⟩ ≠ .ok (.ok, bytes) m' := by
  intro hr
  simp only [readBytes, EStateM.run_bind, Machine.run_onMem] at hr
  cases hread : (MMUSys.vaddrReadBuffer c.mmuEnv addr 1 [b]).run s with
  | error e s₁ =>
      rw [hread] at hr
      cases hr
  | ok r s₁ =>
      obtain ⟨fb, data⟩ := r
      have hfb : fb ≠ .accessOk := by
        intro hok
        exact h b data s₁ (hok ▸ hread)
      rw [hread] at hr
      simp only [if_pos hfb] at hr
      cases hr

/-- The loop of the debugger and the loads end alike where the places of the bytes are alike. -/
theorem readBytes_iff {c : RV64Core} (hplaces : PlacesAlike (β := β) c.mmuEnv env)
    (buffer : List Byte) : ∀ (addr : Word) (s : MMUSys β),
      BytesRead c.mmuEnv buffer.length addr s → ∀ bytes,
        (∃ m', (readBytes addr buffer).run ⟨c, s⟩ = .ok (.ok, bytes) m') ↔
          ∃ s', (loadBytes env buffer.length addr).run s = .ok (.ok bytes) s' := by
  induction buffer with
  | nil =>
      intro addr s _ bytes
      constructor
      · rintro ⟨m', hr⟩
        cases hr
        exact ⟨s, rfl⟩
      · rintro ⟨s', hr⟩
        cases hr
        exact ⟨_, rfl⟩
  | cons b rest ih =>
      intro addr s hread bytes
      obtain ⟨hplace, hrest⟩ := hread
      rcases vaddrReadBuffer_cases hplaces hplace with ⟨y, s₁, hd, hg⟩ | ⟨hd, hg⟩
      · have hnext := ih (addr + 1) s₁ (hrest b [y] s₁ (hd b))
        rw [readBytes_cons_iff hd, List.length_cons, loadBytes_succ_iff hg]
        simp only [hnext]
      · constructor
        · rintro ⟨m', hr⟩
          exact absurd hr (readBytes_of_neverReturns hd b rest bytes m')
        · rintro ⟨s', hr⟩
          exact absurd hr (loadBytes_of_neverReturns hg rest.length bytes s')

/-! ## The decisions -/

theorem loadCheck_alike {φ : Type} (pgfault accfault : φ) (e : SV39TLBEntry)
    (hstatus : env.status = env'.status)
    (huser : env.priv = .uMode ↔ env'.priv = .uMode)
    (hsup : MStatus.sum env.status = false →
      (env.currentPrivMode = .sMode ↔ env'.currentPrivMode = .sMode)) :
    loadCheck env pgfault accfault e = none ↔ loadCheck env' pgfault accfault e = none := by
  have huser : (env.priv == .uMode) = (env'.priv == .uMode) := by
    rw [Bool.eq_iff_iff, beq_iff_eq, beq_iff_eq, huser]
  rw [loadCheck, loadCheck, ← hstatus, ← huser]
  cases hsum : MStatus.sum env.status with
  | true => simp
  | false =>
      have hsup : (env.currentPrivMode == .sMode) = (env'.currentPrivMode == .sMode) := by
        rw [Bool.eq_iff_iff, beq_iff_eq, beq_iff_eq, hsup hsum]
      rw [hsup]

/-- Two checks that permit the same entries permit the same accesses. -/
theorem pagedAddr_alike {φ : Type} {misalign pgfault : φ}
    {check check' : SV39TLBEntry → Option φ} (mode : PrivMode)
    (hcheck : ∀ e, check e = none ↔ check' e = none) (s : MMUSys β) (paddr : Word)
    (s₁ : MMUSys β) :
    (MMUSys.pagedAddr env addr 1 misalign pgfault check).run s = .ok (.ok paddr) s₁ ↔
      (MMUSys.pagedAddr { env with currentPrivMode := mode } addr 1 misalign pgfault check').run s
        = .ok (.ok paddr) s₁ := by
  have hentry : MMUSys.getTLBEntry (β := β) { env with currentPrivMode := mode } addr
      = MMUSys.getTLBEntry env addr := rfl
  rw [MMUSys.pagedAddr, MMUSys.pagedAddr, hentry]
  by_cases hpage : addr >>> 12 ≠ (addr + 1 - 1) >>> 12
  · rw [if_pos hpage, if_pos hpage]
  · rw [if_neg hpage, if_neg hpage, EStateM.run_bind, EStateM.run_bind]
    cases (MMUSys.getTLBEntry env addr).run s with
    | error e s' => exact Iff.rfl
    | ok entry s' =>
        cases entry with
        | none => exact Iff.rfl
        | some i =>
            simp only [EStateM.run_bind, EStateM.run_get]
            have hi := hcheck (s'.mmu.tlb i)
            cases h : check (s'.mmu.tlb i) with
            | none => rw [hi.mp h]
            | some fault =>
                obtain ⟨fault', h'⟩ := Option.ne_none_iff_exists'.mp fun hn => by
                  rw [hi.mpr hn] at h
                  cases h
                rw [h']
                constructor
                · intro hr
                  cases hr
                · intro hr
                  cases hr

/-- Where the debugger translates, the mode of the last step is below M and decides alone. -/
theorem mode_of_debug {c : RV64Core} (h : bareDebug c = false) :
    (c.currentPrivMode == .mMode) = false ∧ (Satp.mode c.satp == 0) = false :=
  Bool.or_eq_false_iff.mp h

theorem bareData_of_debug {c : RV64Core} (h : bareDebug c = false) :
    c.mmuEnv.bareData = false := by
  obtain ⟨hmode, hsatp⟩ := mode_of_debug h
  show ((c.currentPrivMode == .mMode && _) || Satp.mode c.satp == 0) = false
  rw [hmode, hsatp]
  rfl

theorem priv_of_debug {c : RV64Core} (h : bareDebug c = false) :
    c.mmuEnv.priv = c.currentPrivMode := by
  obtain ⟨hmode, -⟩ := mode_of_debug h
  show (if (_ && c.currentPrivMode == .mMode) = true then _ else c.currentPrivMode) = _
  rw [hmode, Bool.and_false, if_neg Bool.false_ne_true]

/-- The debugger and the next load find the bytes at the same places. -/
theorem ViewsAlike.places {c : RV64Core} (h : ViewsAlike c) (hpaged : bareDebug c = false) :
    PlacesAlike (β := β) c.mmuEnv c.beginStep.mmuEnv := by
  have hbare' : c.beginStep.mmuEnv.bareData = false := h.translated ▸ hpaged
  intro addr s paddr s₁
  rw [bytePlace, bytePlace, bareData_of_debug hpaged, hbare', if_neg Bool.false_ne_true,
    if_neg Bool.false_ne_true]
  refine pagedAddr_alike c.nextPrivMode (fun e => ?_) s paddr s₁
  refine loadCheck_alike _ _ e rfl ?_ (h.supervisor hpaged)
  rw [priv_of_debug hpaged]
  exact h.user hpaged

/-! ## Addresses that are not translated -/

theorem bytePlace_of_bare (hbare : env.bareData = true) (addr : Word) (s : MMUSys β) :
    (bytePlace env addr).run s = .ok (.ok addr) s := by
  rw [bytePlace, if_pos hbare]
  rfl

/-- A byte that is read where it is. -/
theorem returns_of_bare (hbare : env.bareData = true) {y : Byte} {b' : β}
    (h : ∀ x, (MMIOBus.paddrReadBuffer addr 1 [x]).run s.sysBus = .ok (.ok, [y]) b') :
    ∃ s', Returns (fun b => MMUSys.vaddrReadBuffer env addr 1 [b]) s y s' ∧ s'.sysBus = b' := by
  obtain ⟨s', hr, hbus⟩ := readAt_returns h
  refine ⟨s', fun b => ?_, hbus⟩
  exact (run_vaddrReadBuffer_of_place (bytePlace_of_bare hbare addr s) [b]).trans (hr b)

theorem neverReturns_of_bare (hbare : env.bareData = true)
    (h : ∀ x data b', (MMIOBus.paddrReadBuffer addr 1 [x]).run s.sysBus ≠ .ok (.ok, data) b') :
    NeverReturns (fun b => MMUSys.vaddrReadBuffer env addr 1 [b]) s := by
  intro b data s' hrun
  have hplace := run_vaddrReadBuffer_of_place (bytePlace_of_bare hbare addr s) [b]
  exact readAt_neverReturns h b data s' (hplace.symm.trans hrun)

omit [MMIOBus β] in
theorem run_onBus {α : Type} (call : EStateM Abort β α) (m : Machine β) :
    (onBus call).run m = match call.run m.mem.sysBus with
      | .ok a b => .ok a { m with mem := { m.mem with sysBus := b } }
      | .error e b => .error e { m with mem := { m.mem with sysBus := b } } := rfl

/-- The debugger reads a range that is not translated in one call of the bus. -/
theorem memRead_of_bare {m : Machine β} (hbare : bareDebug m.core = true)
    (start_addr size : Word) (buffer bytes : List Byte) :
    (∃ m', (Machine.memRead start_addr size buffer).run m = .ok (.ok, bytes) m') ↔
      ∃ b', (MMIOBus.paddrReadBuffer start_addr size buffer).run m.mem.sysBus
        = .ok (.ok, bytes) b' := by
  rw [Machine.memRead, EStateM.run_bind, EStateM.run_get]
  dsimp only
  rw [if_pos hbare, run_onBus]
  constructor
  · intro h
    obtain ⟨m', hr⟩ := h
    cases hread : (MMIOBus.paddrReadBuffer start_addr size buffer).run m.mem.sysBus with
    | ok r b =>
        rw [hread] at hr
        cases hr
        exact ⟨b, rfl⟩
    | error e b =>
        rw [hread] at hr
        cases hr
  · intro h
    obtain ⟨b', hr⟩ := h
    rw [hr]
    exact ⟨_, rfl⟩

theorem memRead_of_paged {m : Machine β} (hpaged : bareDebug m.core = false)
    (start_addr size : Word) (buffer : List Byte) :
    (Machine.memRead start_addr size buffer).run m = (readBytes start_addr buffer).run m := by
  rw [Machine.memRead, EStateM.run_bind, EStateM.run_get]
  dsimp only
  rw [hpaged, if_neg Bool.false_ne_true]

end View

/-! ## Ranges of RAM -/

section Ram

variable {δ : Type} {b : MEmuMMIOBus (MMIOMem ⊕ δ)} {h : DevHandle} {ram : MMIOMem}
  {addr : Word}

/-- The `n` addresses from `addr` on are of the RAM `ram` of device `h`, up to its end if that
comes first.  At the end there is nothing, or the same device. -/
structure RunsIn (b : MEmuMMIOBus (MMIOMem ⊕ δ)) (h : DevHandle) (ram : MMIOMem) (addr : Word)
    (n : Nat) : Prop where
  dev : (b.obj h).dev = .inl ram
  start : (addr - (b.obj h).devBaseAddr).toNat ≤ ram.memorySize.toNat
  inside : ∀ i < n, (addr - (b.obj h).devBaseAddr).toNat + i < ram.memorySize.toNat →
    (b.findDevAccordingToAddr (addr + BitVec.ofNat 64 i)).1 = some h
  outside : ∀ i < n, (addr - (b.obj h).devBaseAddr).toNat + i = ram.memorySize.toNat →
    (b.findDevAccordingToAddr (addr + BitVec.ofNat 64 i)).1 = none ∨
      (b.findDevAccordingToAddr (addr + BitVec.ofNat 64 i)).1 = some h

/-- A lookup changes no other. -/
theorem MEmuMMIOBus.findDev_findDev (b : MEmuMMIOBus (MMIOMem ⊕ δ)) (addr a : Word) :
    ((b.findDevAccordingToAddr addr).2.findDevAccordingToAddr a).1
      = (b.findDevAccordingToAddr a).1 := by
  have hscan : (b.findDevAccordingToAddr addr).2.scanDevs a = b.scanDevs a := by
    rw [scanDevs, scanDevs, findDev_mmioDevs, findDev_obj]
  rw [findDev_fst a (b.findDevAccordingToAddr addr).2, findDev_cache, hscan]
  by_cases ha : a = addr
  · rw [if_pos ha, ha, findDev_fst, Option.or_assoc, Option.or_self]
  · rw [if_neg ha, findDev_fst]

/-- The offset of the next address. -/
theorem offset_next {base addr size : Word} (hin : (addr - base).toNat < size.toNat) :
    (addr + 1 - base).toNat = (addr - base).toNat + 1 := by
  have hlt := size.isLt
  bv_omega

/-- The rest of a range, after its first byte has been looked up. -/
theorem RunsIn.next {n : Nat} (hruns : RunsIn b h ram addr (n + 1))
    (hin : (addr - (b.obj h).devBaseAddr).toNat < ram.memorySize.toNat) :
    RunsIn (b.findDevAccordingToAddr addr).2 h ram (addr + 1) n := by
  have hobj := b.findDev_obj addr
  have hoff := offset_next hin
  have haddr (i : Nat) : addr + 1 + BitVec.ofNat 64 i = addr + BitVec.ofNat 64 (i + 1) := by
    bv_omega
  constructor
  · rw [hobj]
    exact hruns.dev
  · rw [hobj, hoff]
    exact hin
  · intro i hi hlt
    rw [hobj, hoff] at hlt
    rw [MEmuMMIOBus.findDev_findDev, haddr]
    exact hruns.inside (i + 1) (by omega) (by omega)
  · intro i hi heq
    rw [hobj, hoff] at heq
    rw [MEmuMMIOBus.findDev_findDev, haddr]
    exact hruns.outside (i + 1) (by omega) (by omega)

variable [MMIODevI δ]

/-- A read that leaves the RAM does not return. -/
theorem read_outside (hfound : (b.findDevAccordingToAddr addr).1 = some h)
    (hdev : (b.obj h).dev = .inl ram) (size : Word)
    (hout : ram.memorySize.toNat < (addr - (b.obj h).devBaseAddr).toNat + size.toNat)
    (buffer : List Byte) (r : FuncReturnFeedback × List Byte)
    (b' : MEmuMMIOBus (MMIOMem ⊕ δ)) :
    (MMIOBus.paddrReadBuffer addr size buffer).run b ≠ .ok r b' := by
  intro hr
  have hobj := b.findDev_obj addr
  have hno : ¬ram.inBuffer (addr - (b.obj h).devBaseAddr) size := Nat.not_le.mpr hout
  have hmem := (RAMBus.mem_readBuffer ram (addr - (b.obj h).devBaseAddr) size buffer).trans
    (if_neg hno)
  have hcall : (MMIODevI.readBuffer (addr - (b.obj h).devBaseAddr) size buffer).run
      (b.obj h).dev = .error .outOfBuffer (.inl ram) := by
    rw [hdev]
    exact run_readBuffer_inl_error δ hmem
  have hread := (MEmuMMIOBus.run_paddrReadBuffer addr size buffer b).symm.trans hr
  rw [hfound] at hread
  simp only [EStateM.run_bind, MEmuMMIOBus.run_callDev, hobj, hcall] at hread
  cases hread

/-- A read of one byte inside the RAM. -/
theorem RunsIn.run_byte {n : Nat} (hruns : RunsIn b h ram addr (n + 1))
    (hin : (addr - (b.obj h).devBaseAddr).toNat < ram.memorySize.toNat) (x : Byte) :
    (MMIOBus.paddrReadBuffer addr 1 [x]).run b
      = .ok (.ok, [ram.memData (addr - (b.obj h).devBaseAddr).toNat])
          (b.findDevAccordingToAddr addr).2 := by
  have hfound := hruns.inside 0 (Nat.succ_pos n) hin
  rw [BitVec.add_zero] at hfound
  have hram : InRAM b h ram addr (1 : Word).toNat := ⟨hfound, hruns.dev, hin⟩
  exact hram.run_read 1 [x]

/-- No byte is read at the end of the RAM. -/
theorem RunsIn.not_read {n : Nat} (hruns : RunsIn b h ram addr (n + 1))
    (hend : (addr - (b.obj h).devBaseAddr).toNat = ram.memorySize.toNat) (x : Byte)
    (data : List Byte) (b' : MEmuMMIOBus (MMIOMem ⊕ δ)) :
    (MMIOBus.paddrReadBuffer addr 1 [x]).run b ≠ .ok (.ok, data) b' := by
  have hfound := hruns.outside 0 (Nat.succ_pos n) hend
  rw [BitVec.add_zero] at hfound
  rcases hfound with hnone | hfound
  · intro hr
    exact found_of_read hr hnone
  · exact read_outside hfound hruns.dev 1 (by rw [hend]; exact Nat.lt_succ_self _) [x] _ b'

omit [MMIODevI δ] in
/-- The bytes of a range, first byte first. -/
theorem map_range_succ (ram : MMIOMem) (off n : Nat) :
    (List.range (n + 1)).map (fun i => ram.memData (off + i))
      = ram.memData off :: (List.range n).map fun i => ram.memData (off + 1 + i) := by
  rw [List.range_succ_eq_map, List.map_cons, List.map_map]
  refine congrArg _ (List.map_congr_left fun i _ => ?_)
  show ram.memData (off + (i + 1)) = _
  rw [Nat.add_assoc, Nat.add_comm 1 i]

/-- The loads of a range that runs in RAM are those of its bytes, if it ends there. -/
theorem RunsIn.loadBytes {env : MMUEnv} (hbare : env.bareData = true) (n : Nat) :
    ∀ (addr : Word) (s : MMUSys (MEmuMMIOBus (MMIOMem ⊕ δ))), RunsIn s.sysBus h ram addr n →
      ∀ bytes, (∃ s', (MEmu.loadBytes env n addr).run s = .ok (.ok bytes) s') ↔
        (addr - (s.sysBus.obj h).devBaseAddr).toNat + n ≤ ram.memorySize.toNat ∧
          bytes = (List.range n).map fun i =>
            ram.memData ((addr - (s.sysBus.obj h).devBaseAddr).toNat + i) := by
  induction n with
  | zero =>
      intro addr s hruns bytes
      constructor
      · intro hr
        obtain ⟨s', hr⟩ := hr
        cases hr
        exact ⟨hruns.start, rfl⟩
      · rintro ⟨-, rfl⟩
        exact ⟨s, rfl⟩
  | succ n ih =>
      intro addr s hruns bytes
      rcases Nat.lt_or_eq_of_le hruns.start with hin | hend
      · obtain ⟨s₁, hfirst, hbus⟩ := returns_of_bare hbare (hruns.run_byte hin)
        have hnext := ih (addr + 1) s₁ (hbus ▸ hruns.next hin)
        rw [hbus, MEmuMMIOBus.findDev_obj, offset_next hin] at hnext
        rw [loadBytes_succ_iff hfirst]
        simp only [hnext]
        constructor
        · rintro ⟨tail, rfl, hle, rfl⟩
          exact ⟨by omega, (map_range_succ ram _ n).symm⟩
        · rintro ⟨hle, rfl⟩
          exact ⟨_, map_range_succ ram _ n, by omega, rfl⟩
      · constructor
        · intro hr
          obtain ⟨s', hr⟩ := hr
          have hno := neverReturns_of_bare hbare (hruns.not_read hend)
          exact absurd hr (loadBytes_of_neverReturns hno n bytes s')
        · rintro ⟨hle, -⟩
          omega

end Ram

/-! ## The two views -/

section Views

variable {δ : Type} [MMIODevI δ]

/-- The debugger's read is one that the bus answers byte by byte: it is translated, so that it is
made byte by byte, or it is of a range of RAM, of one byte, or of nothing that is there. -/
inductive ReadsPlainly (m : Machine (MEmuMMIOBus (MMIOMem ⊕ δ))) (start_addr size : Word) :
    Prop where
  | paged (hpaged : bareDebug m.core = false)
      (hread : BytesRead m.core.mmuEnv size.toNat start_addr m.mem)
  | ram (hbare : bareDebug m.core = true) (h : DevHandle) (ram : MMIOMem)
      (hfound : (m.mem.sysBus.findDevAccordingToAddr start_addr).1 = some h)
      (hruns : RunsIn m.mem.sysBus h ram start_addr size.toNat)
  | byte (hbare : bareDebug m.core = true) (hsize : size = 1)
      (hread : ReadsByte m.mem.sysBus start_addr)
  | nowhere (hbare : bareDebug m.core = true) (hsize : size ≠ 0)
      (hnone : (m.mem.sysBus.findDevAccordingToAddr start_addr).1 = none)

variable {m : Machine (MEmuMMIOBus (MMIOMem ⊕ δ))} {start_addr size : Word} {buffer : List Byte}

/-- A plain read is alike where the decisions are. -/
theorem ViewsAlike.sees (hviews : ViewsAlike m.core) (hlen : buffer.length = size.toNat)
    (hplain : ReadsPlainly m start_addr size) : SeesAlike m start_addr size buffer := by
  intro bytes
  cases hplain with
  | paged hpaged hread =>
      rw [memRead_of_paged hpaged]
      rw [← hlen] at hread ⊢
      exact readBytes_iff (hviews.places hpaged) buffer start_addr m.mem hread bytes
  | ram hbare h ram hfound hruns =>
      have hbare' : m.begun.mmuEnv.bareData = true := hviews.translated ▸ hbare
      rw [memRead_of_bare hbare, hruns.loadBytes hbare']
      by_cases hfits : (start_addr - (m.mem.sysBus.obj h).devBaseAddr).toNat + size.toNat
          ≤ ram.memorySize.toNat
      · have hread := InRAM.run_read size ⟨hfound, hruns.dev, hfits⟩ buffer
        rw [hread]
        constructor
        · rintro ⟨b', hr⟩
          cases hr
          exact ⟨hfits, rfl⟩
        · rintro ⟨-, rfl⟩
          exact ⟨_, rfl⟩
      · constructor
        · rintro ⟨b', hr⟩
          exact absurd hr (read_outside hfound hruns.dev size (by omega) buffer _ b')
        · rintro ⟨hle, -⟩
          exact absurd hle hfits
  | byte hbare hsize hread =>
      have hbare' : m.begun.mmuEnv.bareData = true := hviews.translated ▸ hbare
      subst hsize
      obtain ⟨x, rfl⟩ := List.length_eq_one_iff.mp hlen
      rw [memRead_of_bare hbare]
      show _ ↔ ∃ s, (loadBytes m.begun.mmuEnv (0 + 1) start_addr).run m.mem = _
      rcases hread with ⟨y, b', hread⟩ | hread
      · obtain ⟨s₁, hfirst, -⟩ := returns_of_bare hbare' hread
        rw [loadBytes_succ_iff hfirst, hread x]
        constructor
        · rintro ⟨b'', hr⟩
          cases hr
          exact ⟨[], rfl, s₁, rfl⟩
        · rintro ⟨tail, rfl, s', hr⟩
          cases hr
          exact ⟨b', rfl⟩
      · constructor
        · rintro ⟨b', hr⟩
          exact absurd hr (hread x bytes b')
        · rintro ⟨s', hr⟩
          have hno := neverReturns_of_bare hbare' hread
          exact absurd hr (loadBytes_of_neverReturns hno 0 bytes s')
  | nowhere hbare hsize hnone =>
      have hbare' : m.begun.mmuEnv.bareData = true := hviews.translated ▸ hbare
      obtain ⟨n, hn⟩ : ∃ n, size.toNat = n + 1 :=
        Nat.exists_eq_succ_of_ne_zero fun hzero => hsize (BitVec.eq_of_toNat_eq hzero)
      rw [memRead_of_bare hbare, hn]
      constructor
      · rintro ⟨b', hr⟩
        exact absurd hnone (found_of_read hr)
      · rintro ⟨s', hr⟩
        have hno := neverReturns_of_bare hbare' fun x data b' hr => found_of_read hr hnone
        exact absurd hr (loadBytes_of_neverReturns hno n bytes s')

/-! ## Where the decisions differ -/

/-- An entry that maps the first page to itself. -/
def selfEntry (satp : Word) (accessed user : Bool) : SV39TLBEntry :=
  { (default : SV39TLBEntry) with
    ppa := 0
    vpa := 0
    asid := Satp.asid satp
    pagesize := .size4K
    R := true
    U := user
    A := accessed }

/-- A TLB that holds that entry, found at the slot that is written first, and one byte of RAM at
address 0. -/
def selfMapped (δ : Type) (satp : Word) (accessed user : Bool) :
    MMUSys (MEmuMMIOBus (MMIOMem ⊕ δ)) :=
  { mmu := { RV64SV39MMU.construct default with
      tlb := fun _ => selfEntry satp accessed user
      tlbGetCache := fun _ => some (RV64SV39MMU.construct default).lastSwappedIndex }
    busLog := []
    sysBus := { MEmuMMIOBus.empty fun _ =>
        { MMIOMem.ofBytes [0] with dev := .inl (MMIOMem.ofBytes [0]).dev } with
      mmioDevs := [0] } }

variable {satp : Word} {accessed user : Bool} {env : MMUEnv}

theorem selfMapped_read (x : Byte) :
    (MMIOBus.paddrReadBuffer 0 1 [x]).run (selfMapped δ satp accessed user).sysBus
      = .ok (.ok, [0])
          ((selfMapped δ satp accessed user).sysBus.findDevAccordingToAddr 0).2 := by
  have hoff : (0 : Word) - ((selfMapped δ satp accessed user).sysBus.obj 0).devBaseAddr = 0 :=
    BitVec.sub_self 0
  have hram : InRAM (selfMapped δ satp accessed user).sysBus 0 (MMIOMem.ofBytes [0]).dev 0
      (1 : Word).toNat := ⟨rfl, rfl, by rw [hoff]; decide⟩
  have hbytes : (MMIOMem.ofBytes [0]).dev.bytesAt 0 1 = [0] := by decide
  have hread := hram.run_read 1 [x]
  rwa [hoff, hbytes] at hread

/-- The entry permits a load. -/
def Permits (env : MMUEnv) (e : SV39TLBEntry) : Prop :=
  env.bareData = true ∨ loadCheck env VAddrRWFeedback.pageFault .accessFault e = none

theorem run_getTLBEntry_selfMapped (hsatp : env.satp = satp) :
    (MMUSys.getTLBEntry env 0).run (selfMapped δ satp accessed user)
      = .ok (some 0) (selfMapped δ satp accessed user) := by
  have hcache : (selfMapped δ satp accessed user).mmu.cacheLookup env.satp 0 .size4K = some 0 := by
    rw [hsatp]
    simp [RV64SV39MMU.cacheLookup, selfMapped, selfEntry, RV64SV39MMU.asidMatch,
      RV64SV39MMU.construct]
  have hlookup : (MMUSys.lookupTLB env.satp 0).run (selfMapped δ satp accessed user).mmu
      = .ok (some 0) (selfMapped δ satp accessed user).mmu := by
    rw [MMUSys.lookupTLB, EStateM.run_bind, EStateM.run_get]
    dsimp only
    rw [hcache]
    rfl
  rw [MMUSys.getTLBEntry, EStateM.run_bind, run_cassert, if_pos (by decide)]
  dsimp only
  rw [EStateM.run_bind, MMUSys.run_onMMU, hlookup]
  rfl

/-- The first byte is found exactly where the entry permits it. -/
theorem bytePlace_selfMapped (hsatp : env.satp = satp) (paddr : Word)
    (s₁ : MMUSys (MEmuMMIOBus (MMIOMem ⊕ δ))) :
    (bytePlace env 0).run (selfMapped δ satp accessed user) = .ok (.ok paddr) s₁ ↔
      Permits env (selfEntry satp accessed user) ∧ paddr = 0 ∧
        s₁ = selfMapped δ satp accessed user := by
  by_cases hbare : env.bareData = true
  · rw [bytePlace_of_bare hbare]
    constructor
    · intro hr
      cases hr
      exact ⟨.inl hbare, rfl, rfl⟩
    · rintro ⟨-, rfl, rfl⟩
      rfl
  · have hpage : InPage 0 1 := by
      rw [InPage]
      decide
    have hsize : ((selfMapped δ satp accessed user).mmu.tlb 0).pagesize.bytes ≠ 0 := by
      show PageSize.bytes .size4K ≠ 0
      decide
    have hentry : (selfMapped δ satp accessed user).mmu.tlb 0 = selfEntry satp accessed user := rfl
    rw [bytePlace, if_neg hbare, run_pagedAddr hpage (run_getTLBEntry_selfMapped hsatp) hsize,
      hentry, Permits]
    cases hcheck : loadCheck env VAddrRWFeedback.pageFault .accessFault
        (selfEntry satp accessed user) with
    | some fault =>
        constructor
        · intro hr
          cases hr
        · rintro ⟨hpermits, -⟩
          rcases hpermits with h | h
          · exact absurd h hbare
          · cases h
    | none =>
        constructor
        · intro hr
          cases hr
          exact ⟨.inr rfl, rfl, rfl⟩
        · rintro ⟨-, rfl, rfl⟩
          rfl

theorem bytesRead_selfMapped (hsatp : env.satp = satp) :
    BytesRead env 1 0 (selfMapped δ satp accessed user) := by
  refine ⟨fun paddr s₁ hplace => ?_, fun _ _ _ _ => trivial⟩
  obtain ⟨-, rfl, rfl⟩ := (bytePlace_selfMapped hsatp paddr s₁).mp hplace
  exact .inl ⟨0, _, selfMapped_read⟩

/-- The program's load of the first byte. -/
theorem loadBytes_selfMapped (hsatp : env.satp = satp) :
    (∃ s', (loadBytes env 1 0).run (selfMapped δ satp accessed user) = .ok (.ok [0]) s') ↔
      Permits env (selfEntry satp accessed user) := by
  constructor
  · rintro ⟨s', hr⟩
    by_contra hno
    have hnever : NeverReturns (fun b => MMUSys.vaddrReadBuffer env 0 1 [b])
        (selfMapped δ satp accessed user) := by
      refine neverReturns_of_no_place fun paddr s₁ hplace => ?_
      exact hno ((bytePlace_selfMapped hsatp paddr s₁).mp hplace).1
    exact loadBytes_of_neverReturns hnever 0 [0] s' hr
  · intro hpermits
    have hplace := (bytePlace_selfMapped (δ := δ) hsatp 0 _).mpr ⟨hpermits, rfl, rfl⟩
    obtain ⟨s₁, hread, -⟩ := readAt_returns (s := selfMapped δ satp accessed user)
      fun x => selfMapped_read x
    have hreturns : Returns (fun b => MMUSys.vaddrReadBuffer env 0 1 [b])
        (selfMapped δ satp accessed user) 0 s₁ := fun b =>
      (run_vaddrReadBuffer_of_place hplace [b]).trans (hread b)
    exact (loadBytes_succ_iff hreturns 0 [0]).mpr ⟨[], rfl, s₁, rfl⟩

/-- The debugger's read of it. -/
theorem memRead_selfMapped (c : RV64Core) (accessed user : Bool) :
    (∃ m', (Machine.memRead 0 1 [0]).run ⟨c, selfMapped δ c.satp accessed user⟩
        = .ok (.ok, [0]) m') ↔
      bareDebug c = true ∨ Permits c.mmuEnv (selfEntry c.satp accessed user) := by
  cases hbare : bareDebug c with
  | true =>
      rw [memRead_of_bare hbare]
      exact iff_of_true ⟨_, selfMapped_read 0⟩ (.inl rfl)
  | false =>
      have hsame : PlacesAlike (β := MEmuMMIOBus (MMIOMem ⊕ δ)) c.mmuEnv c.mmuEnv :=
        fun _ _ _ _ => Iff.rfl
      have hloop := readBytes_iff hsame [0] 0 (selfMapped δ c.satp accessed user)
        (bytesRead_selfMapped rfl) [0]
      have hload : (∃ s', (loadBytes c.mmuEnv 1 0).run (selfMapped δ c.satp accessed user)
          = .ok (.ok [0]) s') ↔ Permits c.mmuEnv (selfEntry c.satp accessed user) :=
        loadBytes_selfMapped rfl
      rw [memRead_of_paged hbare, hloop]
      exact hload.trans (by simp)

/-- The read of the first byte is plain. -/
theorem readsPlainly_selfMapped (c : RV64Core) (accessed user : Bool) :
    ReadsPlainly ⟨c, selfMapped δ c.satp accessed user⟩ 0 1 := by
  cases hbare : bareDebug c with
  | true => exact .byte hbare rfl (.inl ⟨0, _, selfMapped_read⟩)
  | false => exact .paged hbare (bytesRead_selfMapped rfl)

theorem loadCheck_notAccessed {e : SV39TLBEntry} (h : e.A = false) :
    loadCheck env VAddrRWFeedback.pageFault .accessFault e = some .pageFault := by
  rw [loadCheck, h]
  rfl

/-- The check of a load on a readable page. -/
theorem loadCheck_self (env : MMUEnv) (satp : Word) (user : Bool) :
    loadCheck env VAddrRWFeedback.pageFault .accessFault (selfEntry satp true user) = none ↔
      ¬(env.priv = .uMode ∧ user = false) ∧
        ¬(env.currentPrivMode = .sMode ∧ user = true ∧ MStatus.sum env.status = false) := by
  have hU : (selfEntry satp true user).U = user := rfl
  simp only [loadCheck_readable env _ _ (e := selfEntry satp true user) rfl rfl, hU]
  by_cases hu : env.priv = .uMode ∧ user = false
  · simp [hu]
  · rw [if_neg hu]
    by_cases hs : env.currentPrivMode = .sMode ∧ user = true ∧ MStatus.sum env.status = false
    · simp [hs]
    · rw [if_neg hs]
      exact iff_of_true rfl ⟨hu, hs⟩

/-- What the two permit where they read alike. -/
theorem permits_of_sees {c : RV64Core} (accessed user : Bool)
    (h : SeesAlike ⟨c, selfMapped δ c.satp accessed user⟩ 0 1 [0]) :
    (bareDebug c = true ∨ Permits c.mmuEnv (selfEntry c.satp accessed user)) ↔
      Permits c.beginStep.mmuEnv (selfEntry c.satp accessed user) := by
  have hload : (∃ s, (loadBytes c.beginStep.mmuEnv 1 0).run (selfMapped δ c.satp accessed user)
      = .ok (.ok [0]) s) ↔ _ := loadBytes_selfMapped rfl
  rw [← memRead_selfMapped c accessed user (δ := δ), ← hload]
  exact h [0]

/-- The debugger and the next loads see the same memory, whatever it is, exactly where their
decisions come out alike. -/
theorem debug_view_iff (c : RV64Core) :
    (∀ (mem : MMUSys (MEmuMMIOBus (MMIOMem ⊕ δ))) (start_addr size : Word) (buffer : List Byte),
      buffer.length = size.toNat → ReadsPlainly ⟨c, mem⟩ start_addr size →
        SeesAlike ⟨c, mem⟩ start_addr size buffer) ↔ ViewsAlike c := by
  constructor
  · intro h
    have hpermits (accessed user : Bool) := permits_of_sees (δ := δ) accessed user
      (h _ 0 1 [0] rfl (readsPlainly_selfMapped c accessed user))
    have htranslated : bareDebug c = c.beginStep.mmuEnv.bareData := by
      have h := hpermits false false
      rw [Permits, Permits, loadCheck_notAccessed rfl, loadCheck_notAccessed rfl] at h
      simp only [reduceCtorEq, or_false] at h
      rw [Bool.eq_iff_iff, ← h]
      constructor
      · exact Or.inl
      · rintro (hd | hd)
        · exact hd
        · by_contra hno
          rw [bareData_of_debug (Bool.eq_false_iff.mpr hno)] at hd
          cases hd
    have hpaged (hpaged : bareDebug c = false) (user : Bool) :
        loadCheck c.mmuEnv VAddrRWFeedback.pageFault .accessFault (selfEntry c.satp true user)
            = none ↔
          loadCheck c.beginStep.mmuEnv VAddrRWFeedback.pageFault .accessFault
            (selfEntry c.satp true user) = none := by
      have h := hpermits true user
      rw [Permits, Permits, bareData_of_debug hpaged, ← htranslated, hpaged] at h
      simpa using h
    constructor
    · exact htranslated
    · intro hd
      have h := hpaged hd false
      rw [loadCheck_self, loadCheck_self, priv_of_debug hd] at h
      simpa [not_iff_not] using h
    · intro hd hsum
      have h := hpaged hd true
      have hsame : MStatus.sum c.mmuEnv.status = false := hsum
      have hsame' : MStatus.sum c.beginStep.mmuEnv.status = false := hsum
      rw [loadCheck_self, loadCheck_self, hsame, hsame'] at h
      simp only [reduceCtorEq, and_false, and_true, not_false_eq_true, true_and, not_iff_not] at h
      exact h
  · intro hviews mem start_addr size buffer hlen hplain
    exact hviews.sees hlen hplain

end Views

/-- A core that has trapped from U-mode to M-mode under Sv39, with a page table at address 0 that
maps nothing. -/
def trappedFromUser : Machine (MEmuMMIOBus MMIOMem) :=
  .ofBytes
    { (default : RV64Core).reset with
      currentPrivMode := .uMode
      nextPrivMode := .mMode
      satp := 8 <<< 60 }
    [0, 0, 0, 0, 0, 0, 0, 0]

/-- The next load reads a byte at address 0, and the debugger is told that it cannot. -/
theorem debugger_blind_after_trap : ¬∀ (m : Machine (MEmuMMIOBus MMIOMem))
    (start_addr size : Word) (buffer : List Byte), buffer.length = size.toNat →
      SeesAlike m start_addr size buffer := by
  intro h
  have hload : ∃ s, (loadBytes trappedFromUser.begun.mmuEnv 1 0).run trappedFromUser.mem
      = .ok (.ok [0]) s := ⟨_, rfl⟩
  obtain ⟨m', hread⟩ := (h trappedFromUser 0 1 [0] rfl [0]).mpr hload
  have hrefused : ∃ m₁, (Machine.memRead 0 1 [0]).run trappedFromUser
      = .ok (.notAccessible, [0]) m₁ := ⟨_, rfl⟩
  obtain ⟨m₁, hrefused⟩ := hrefused
  cases hrefused.symm.trans hread

end MEmu
