import MEmu.Modes

/-!
# Interrupt selection

The privileged rule for interrupts, stated on its own (`RV64Core.ruled`), against
what `preExec` does (`RV64Core.served`).  `preExec` picks one interrupt from all
that are pending and enabled, and asks whether any of them is delegated only to
decide if the pick may be served.  The rule first splits the set in two.  They
differ where both kinds are pending, and `selection_iff` says exactly when.
-/

namespace MEmu

/-! ## Sets of interrupts -/

namespace IntType

/-- From the interrupt served first to the one served last. -/
def byPriority : List IntType := [.mExt, .mSw, .mTimer, .sExt, .sSw, .sTimer]

/-- The member of highest priority of a set of interrupts, given by its bits. -/
def highest (bits : Word) : Option IntType := byPriority.find? fun i => bits.getLsbD i.val

end IntType

open IntType

/-- The chain of tests is the search for the highest of the six bits. -/
theorem bitsToIntType_eq (bits : Word) : bitsToIntType bits = (highest bits).getD .noInt := by
  simp only [bitsToIntType, highest, byPriority, List.find?_cons, List.find?_nil]
  repeat
    split
    · simp only [*, Option.getD_some]
    simp only [*]
  rfl

/-- What the search finds is pending. -/
theorem highest_val {bits : Word} {i : IntType} (h : highest bits = some i) :
    bits.getLsbD i.val = true := by
  simpa only using List.find?_some h

/-- The highest member of a set is the highest of each subset it is in. -/
theorem highest_subset {bits bits' : Word} {i : IntType} (h : highest bits = some i)
    (hsub : ∀ j, bits'.getLsbD j = true → bits.getLsbD j = true)
    (hi : bits'.getLsbD i.val = true) : highest bits' = some i := by
  obtain ⟨-, before, after, hlist, hbefore⟩ := List.find?_eq_some_iff_append.mp h
  refine List.find?_eq_some_iff_append.mpr ⟨hi, before, after, hlist, fun j hj => ?_⟩
  have hj := hbefore j hj
  rw [Bool.not_eq_true'] at hj ⊢
  exact Bool.eq_false_iff.mpr fun hj' => by rw [hsub _ hj'] at hj; cases hj

/-- Every bit of the set is an interrupt. -/
def Standard (bits : Word) : Prop := bits &&& RV64Core.M_MODE_INT_MASK = bits

instance (bits : Word) : Decidable (Standard bits) := inferInstanceAs (Decidable (_ = _))

/-- The standard interrupts, bit by bit. -/
theorem standard_iff {bits : Word} :
    Standard bits ↔
      ∀ j, bits.getLsbD j = true → RV64Core.M_MODE_INT_MASK.getLsbD j = true := by
  refine ⟨fun h j hj => ?_, fun h => BitVec.eq_of_getLsbD_eq fun j _ => ?_⟩
  · rw [← h, BitVec.getLsbD_and, Bool.and_eq_true] at hj
    exact hj.2
  · rw [BitVec.getLsbD_and]
    cases hj : bits.getLsbD j with
    | false => rw [Bool.false_and]
    | true => rw [h j hj, Bool.true_and]

/-- Fewer interrupts are standard as well. -/
theorem Standard.mono {bits bits' : Word} (h : Standard bits)
    (hsub : ∀ j, bits'.getLsbD j = true → bits.getLsbD j = true) : Standard bits' :=
  standard_iff.mpr fun j hj => standard_iff.mp h j (hsub j hj)

/-- A set of interrupts without a highest member is empty. -/
theorem Standard.highest_eq_none {bits : Word} (h : Standard bits) :
    highest bits = none ↔ bits = 0 := by
  have hmask : ∀ j < 64, RV64Core.M_MODE_INT_MASK.getLsbD j = true →
      ∃ i ∈ byPriority, i.val = j := by decide
  refine ⟨fun hnone => BitVec.eq_of_getLsbD_eq fun j hj => ?_, fun hzero => hzero ▸ rfl⟩
  rw [← h, BitVec.getLsbD_and, show (0 : Word).getLsbD j = false from BitVec.getLsbD_zero]
  refine Bool.eq_false_iff.mpr fun hbit => ?_
  rw [Bool.and_eq_true] at hbit
  obtain ⟨i, hi, rfl⟩ := hmask j hj hbit.2
  exact List.find?_eq_none.mp hnone i hi hbit.1

/-- Among standard interrupts the search finds one. -/
theorem Standard.exists_highest {bits : Word} (h : Standard bits) (hne : bits ≠ 0) :
    ∃ i, highest bits = some i :=
  Option.ne_none_iff_exists'.mp fun hnone => hne (h.highest_eq_none.mp hnone)

theorem bitsToIntType_of_highest {bits : Word} {i : IntType} (h : highest bits = some i) :
    bitsToIntType bits = i := by
  rw [bitsToIntType_eq, h, Option.getD_some]

theorem ne_noInt_of_highest {bits : Word} {i : IntType} (h : highest bits = some i) :
    i ≠ .noInt := fun he =>
  absurd (he ▸ List.mem_of_find?_eq_some h) (by decide)

/-- The chain of tests finds nothing only where there is nothing. -/
theorem Standard.bitsToIntType_eq_noInt {bits : Word} (h : Standard bits) :
    bitsToIntType bits = .noInt ↔ bits = 0 := by
  rw [← h.highest_eq_none]
  cases hi : highest bits with
  | none => rw [bitsToIntType_eq, hi, Option.getD_none, eq_self, eq_self]
  | some i =>
      rw [bitsToIntType_of_highest hi]
      exact ⟨fun he => absurd he (ne_noInt_of_highest hi), nofun⟩

/-! ## The rule and the code -/

namespace RV64Core

/-- The interrupts that are pending and enabled. -/
def pendingEnabled (c : RV64Core) : Word := c.csrIntPending &&& c.csrIntEnable

/-- Those not delegated. -/
def forM (c : RV64Core) : Word := c.pendingEnabled &&& ~~~c.csrMIntDelegation

/-- Those delegated to S-mode. -/
def forS (c : RV64Core) : Word := c.pendingEnabled &&& c.csrMIntDelegation

/-- Interrupts to `mode`, with the global enable bit `ie`, are taken. -/
def enabledFor (mode : PrivMode) (ie : Bool) (c : RV64Core) : Prop :=
  c.currentPrivMode.val < mode.val ∨ (c.currentPrivMode = mode ∧ ie = true)

instance (mode : PrivMode) (ie : Bool) (c : RV64Core) : Decidable (c.enabledFor mode ie) :=
  inferInstanceAs (Decidable (_ ∨ _))

/-- The trap that the privileged rule asks for: its destination and its interrupt. -/
def ruled (c : RV64Core) : Option (PrivMode × IntType) :=
  if c.enabledFor .mMode (MStatus.mie c.status) ∧ c.forM ≠ 0 then
    (highest c.forM).map fun i => (.mMode, i)
  else if c.enabledFor .sMode (MStatus.sie c.status) ∧ c.forS ≠ 0 then
    (highest c.forS).map fun i => (.sMode, i)
  else none

/-- The core after such a trap. -/
def afterInt (c : RV64Core) : Option (PrivMode × IntType) → RV64Core
  | none => c
  | some (dest, i) =>
      let c := { c with needTrap := true, trapLog := c.trapLog ++ [(Cause.int i, 0)] }
      if dest = .sMode then enterSMode (Cause.int i) 0 c else enterMMode (Cause.int i) 0 c

/-- `preExec` raises the trap that the rule asks for, and none where it asks for none. -/
def FollowsRule (c : RV64Core) : Prop :=
  preExec.run c = .ok () (c.beginStep.afterInt c.beginStep.ruled)

/-- The destination that `raiseTrap` gives an interrupt. -/
def intDest (c : RV64Core) (i : IntType) : PrivMode :=
  if c.currentPrivMode ≠ .mMode ∧ c.csrMIntDelegation.getLsbD i.val = true then .sMode else .mMode

/-- The trap that `preExec` raises. -/
def served (c : RV64Core) : Option (PrivMode × IntType) :=
  c.intTaken.map fun i => (c.intDest i, i)

/-- An interrupt goes to S-mode when it is delegated and the hart is not in M-mode. -/
theorem trapToSMode_int (c : RV64Core) (i : IntType) :
    c.trapToSMode (Cause.int i) = true ↔
      c.currentPrivMode ≠ .mMode ∧ c.csrMIntDelegation.getLsbD i.val = true := by
  have hval : (BitVec.ofNat 63 i.val).toNat = i.val := by cases i <;> rfl
  rw [trapToSMode, Cause.int, Cause.interrupt_mk, Cause.cause_mk, hval, if_pos rfl,
    Bool.and_eq_true, bne_iff_ne]

/-- A trap with the cause of an interrupt is the entry to its handler. -/
theorem trapped_int (c : RV64Core) (i : IntType) :
    c.trapped (Cause.int i) 0 = c.afterInt (some (c.intDest i, i)) := by
  have hto := c.trapToSMode_int i
  rcases c.trapped_cases (Cause.int i) 0 with ⟨ht, h⟩ | ⟨ht, h⟩
  · have hdest : c.intDest i = .sMode := if_pos (hto.mp ht)
    rw [h, hdest]
    rfl
  · have hdest : c.intDest i = .mMode := if_neg fun hs => by rw [hto.mpr hs] at ht; cases ht
    rw [h, hdest]
    rfl

theorem trapCause_int {i : IntType} (h : i ≠ .noInt) : TrapCause (Cause.int i) := by
  rw [TrapCause, Cause.int, Cause.cause_mk]
  cases i <;> first | exact absurd rfl h | decide

/-- The selection of the source, in terms of the masks for the two modes. -/
theorem intTaken_eq (c : RV64Core) :
    c.intTaken
      = if bitsToIntType c.pendingEnabled = .noInt then none
        else if c.currentPrivMode = .mMode then
          if MStatus.mie c.status = true ∧ c.forM ≠ 0 then some (bitsToIntType c.forM) else none
        else if c.forS ≠ 0 then
          if c.currentPrivMode.val < PrivMode.sMode.val ∨ MStatus.sie c.status = true then
            some (bitsToIntType c.pendingEnabled)
          else none
        else some (bitsToIntType c.pendingEnabled) := rfl

/-- What is left for M-mode is standard. -/
theorem standard_forM {c : RV64Core} (h : Standard c.pendingEnabled) : Standard c.forM :=
  h.mono fun j hj => by
    rw [forM, BitVec.getLsbD_and, Bool.and_eq_true] at hj
    exact hj.1

/-- An interrupt that is raised is one. -/
theorem intTaken_ne_noInt {c : RV64Core} (h : Standard c.pendingEnabled) :
    c.intTaken ≠ some .noInt := by
  intro ht
  rw [intTaken_eq] at ht
  split at ht
  · cases ht
  rename_i hne
  split at ht
  · split at ht
    · rename_i hm
      exact hm.2 ((standard_forM h).bitsToIntType_eq_noInt.mp (Option.some.inj ht))
    · cases ht
  · split at ht
    · split at ht
      · exact hne (Option.some.inj ht)
      · cases ht
    · exact hne (Option.some.inj ht)

/-- The check before a step enters the handler of the interrupt that is served. -/
theorem preExec_served {c : RV64Core} (h : Standard c.beginStep.pendingEnabled) :
    preExec.run c = .ok () (c.beginStep.afterInt c.beginStep.served) := by
  rw [run_preExec, served]
  cases ht : c.beginStep.intTaken with
  | none => rfl
  | some i =>
      have hi : i ≠ .noInt := fun he => intTaken_ne_noInt h (he ▸ ht)
      show (raiseTrap (Cause.int i) 0).run c.beginStep = _
      rw [run_raiseTrap_ok rfl (trapCause_int hi), trapped_int]
      rfl

/-- Two interrupts have different causes. -/
theorem int_injective : Function.Injective Cause.int := by
  intro i j h
  cases i <;> cases j <;> first | rfl | exact absurd h (by decide)

/-- Two traps from one core are told apart by the core after them. -/
theorem afterInt_inj {c : RV64Core} (h : c.needTrap = false) {t t' : Option (PrivMode × IntType)}
    (ht : ∀ d i, t = some (d, i) → d = .sMode ∨ d = .mMode)
    (ht' : ∀ d i, t' = some (d, i) → d = .sMode ∨ d = .mMode)
    (heq : c.afterInt t = c.afterInt t') : t = t' := by
  have hneed : ∀ t, (c.afterInt t).needTrap = t.isSome := by
    rintro (_ | ⟨d, i⟩)
    · exact h
    · simp only [afterInt]
      split <;> rfl
  have hlog : ∀ d i, (c.afterInt (some (d, i))).trapLog = c.trapLog ++ [(Cause.int i, 0)] := by
    intro d i
    simp only [afterInt]
    split <;> rfl
  have hmode : ∀ d i, d = .sMode ∨ d = .mMode → (c.afterInt (some (d, i))).nextPrivMode = d := by
    rintro d i (rfl | rfl) <;> rfl
  have hsome := congrArg RV64Core.needTrap heq
  rw [hneed, hneed] at hsome
  match t, t', hsome with
  | none, none, _ => rfl
  | some (d, i), some (d', i'), _ =>
      have hd := congrArg RV64Core.nextPrivMode heq
      rw [hmode d i (ht d i rfl), hmode d' i' (ht' d' i' rfl)] at hd
      have hi := congrArg RV64Core.trapLog heq
      rw [hlog, hlog, List.append_cancel_left_eq, List.cons.injEq, Prod.mk.injEq] at hi
      rw [hd, int_injective hi.1.1]

/-- The step follows the rule when the interrupt served is the one of the rule. -/
theorem followsRule_iff {c : RV64Core} (h : Standard c.beginStep.pendingEnabled) :
    c.FollowsRule ↔ c.beginStep.served = c.beginStep.ruled := by
  rw [FollowsRule, preExec_served h]
  refine ⟨fun heq => ?_, fun heq => by rw [heq]⟩
  refine afterInt_inj rfl (fun d i hs => ?_) (fun d i hr => ?_) (EStateM.Result.ok.inj heq).2
  · obtain ⟨j, -, hj⟩ := Option.map_eq_some_iff.mp hs
    rw [← (Prod.mk.inj hj).1, intDest]
    split
    · exact .inl rfl
    · exact .inr rfl
  · rw [ruled] at hr
    split at hr
    · obtain ⟨j, -, hj⟩ := Option.map_eq_some_iff.mp hr
      exact .inr (Prod.mk.inj hj).1.symm
    split at hr
    · obtain ⟨j, -, hj⟩ := Option.map_eq_some_iff.mp hr
      exact .inl (Prod.mk.inj hj).1.symm
    · cases hr

/-! ## Where they agree -/

section Split

variable {c : RV64Core} {i : IntType}

/-- The bits for M-mode are those not delegated. -/
theorem getLsbD_forM (c : RV64Core) {j : Nat} (hj : j < 64) :
    c.forM.getLsbD j = (c.pendingEnabled.getLsbD j && !c.csrMIntDelegation.getLsbD j) := by
  rw [forM, BitVec.getLsbD_and, BitVec.getLsbD_not, decide_eq_true hj, Bool.true_and]

/-- The bits for S-mode are those delegated. -/
theorem getLsbD_forS (c : RV64Core) (j : Nat) :
    c.forS.getLsbD j = (c.pendingEnabled.getLsbD j && c.csrMIntDelegation.getLsbD j) := by
  rw [forS, BitVec.getLsbD_and]

/-- Every pending and enabled interrupt is for one of the two modes. -/
theorem forM_or_forS (c : RV64Core) : c.forM ||| c.forS = c.pendingEnabled := by
  refine BitVec.eq_of_getLsbD_eq fun j hj => ?_
  rw [BitVec.getLsbD_or, getLsbD_forM c hj, getLsbD_forS]
  cases c.pendingEnabled.getLsbD j <;> cases c.csrMIntDelegation.getLsbD j <;> rfl

theorem zero_of_pendingEnabled (h : c.pendingEnabled = 0) : c.forM = 0 ∧ c.forS = 0 := by
  rw [forM, forS, h]
  exact ⟨BitVec.zero_and, BitVec.zero_and⟩

/-- The pick of `preExec` goes to S-mode from a lower mode when it is delegated. -/
theorem intDest_below (hmode : c.currentPrivMode ≠ .mMode) (i : IntType) :
    c.intDest i = if c.csrMIntDelegation.getLsbD i.val = true then .sMode else .mMode := by
  rw [intDest]
  simp only [hmode, ne_eq, not_false_eq_true, true_and]

/-- What `preExec` serves below M-mode, where `i` is the highest of all that are
pending and enabled. -/
theorem served_below (hmode : c.currentPrivMode ≠ .mMode) (hi : highest c.pendingEnabled = some i) :
    c.served
      = if c.forS = 0 ∨ c.currentPrivMode = .uMode ∨ MStatus.sie c.status = true then
          some (c.intDest i, i)
        else none := by
  have hlt : c.currentPrivMode.val < PrivMode.sMode.val ↔ c.currentPrivMode = .uMode := by
    cases c.currentPrivMode <;> decide
  rw [served, intTaken_eq, bitsToIntType_of_highest hi, if_neg (ne_noInt_of_highest hi),
    if_neg hmode]
  simp only [hlt]
  by_cases hS : c.forS = 0
  · simp only [hS, ne_eq, not_true_eq_false, if_false, true_or, if_true, Option.map_some]
  · simp only [hS, ne_eq, not_false_eq_true, if_true, false_or]
    split <;> rfl

/-- What the rule asks for below M-mode. -/
theorem ruled_below (hmode : c.currentPrivMode ≠ .mMode) :
    c.ruled
      = if c.forM ≠ 0 then (highest c.forM).map fun i => (.mMode, i)
        else if c.enabledFor .sMode (MStatus.sie c.status) ∧ c.forS ≠ 0 then
          (highest c.forS).map fun i => (.sMode, i)
        else none := by
  have hM : c.enabledFor .mMode (MStatus.mie c.status) := by
    refine .inl ?_
    cases hm : c.currentPrivMode <;> first | decide | exact absurd hm hmode
  simp only [ruled, hM, true_and]

/-- In M-mode both look at what is not delegated, and at `MIE`. -/
theorem served_mMode (h : Standard c.pendingEnabled) (hmode : c.currentPrivMode = .mMode) :
    c.served = c.ruled := by
  have hS : ¬c.enabledFor .sMode (MStatus.sie c.status) := by
    rw [enabledFor, hmode]
    rintro (hlt | ⟨he, -⟩)
    · exact absurd hlt (by decide)
    · cases he
  have hM : c.enabledFor .mMode (MStatus.mie c.status) ↔ MStatus.mie c.status = true := by
    rw [enabledFor, hmode]
    exact ⟨fun hor => hor.elim (fun hlt => absurd hlt (by decide)) And.right, fun hie => .inr ⟨rfl, hie⟩⟩
  have hdest : ∀ i, c.intDest i = .mMode := fun i => if_neg fun hs => hs.1 hmode
  rw [served, ruled, intTaken_eq, if_pos hmode, if_neg (c := _ ∧ c.forS ≠ 0) fun hs => hS hs.1]
  simp only [hdest, hM]
  by_cases htake : MStatus.mie c.status = true ∧ c.forM ≠ 0
  · have hne : c.pendingEnabled ≠ 0 := fun hzero => htake.2 (zero_of_pendingEnabled hzero).1
    obtain ⟨i, hi⟩ := (standard_forM h).exists_highest htake.2
    rw [if_neg (h.bitsToIntType_eq_noInt.not.mpr hne), if_pos htake, if_pos htake,
      bitsToIntType_of_highest hi, hi]
  · rw [if_neg htake, if_neg htake, ite_self, Option.map_none]

/-- The states in which `preExec` follows the rule. -/
def PicksByRule (c : RV64Core) : Prop :=
  c.currentPrivMode = .mMode ∨ c.forS = 0 ∨
    (c.forM = 0 ∧ ¬(c.currentPrivMode = .hMode ∧ MStatus.sie c.status = true)) ∨
    (c.forM ≠ 0 ∧ c.csrMIntDelegation.getLsbD (bitsToIntType c.pendingEnabled).val = false ∧
      (c.currentPrivMode = .uMode ∨ MStatus.sie c.status = true))

/-- Below M-mode with no interrupt delegated. -/
theorem served_eq_ruled_undelegated (h : Standard c.pendingEnabled)
    (hmode : c.currentPrivMode ≠ .mMode) (hS : c.forS = 0) : c.served = c.ruled := by
  have hall : c.forM = c.pendingEnabled := by
    rw [← forM_or_forS, hS]
    exact BitVec.or_zero.symm
  by_cases hne : c.pendingEnabled = 0
  · rw [ruled_below hmode, served, intTaken_eq, if_pos (h.bitsToIntType_eq_noInt.mpr hne)]
    simp only [hall, hne, hS, ne_eq, not_true_eq_false, and_false, if_false, Option.map_none]
  · obtain ⟨i, hi⟩ := h.exists_highest hne
    have hdeleg : c.csrMIntDelegation.getLsbD i.val = false := by
      have := getLsbD_forS c i.val
      rw [hS, highest_val hi, Bool.true_and] at this
      exact this.symm.trans BitVec.getLsbD_zero
    rw [served_below hmode hi, ruled_below hmode, intDest_below hmode, if_pos (.inl hS), hall,
      if_pos hne, hi, hdeleg]
    rfl

/-- Below M-mode with an interrupt delegated: where all are, the pick is the rule's and it is a
matter of being enabled, and else the rule serves the highest that is not delegated. -/
theorem served_eq_ruled_below (h : Standard c.pendingEnabled) (hmode : c.currentPrivMode ≠ .mMode)
    (hS : c.forS ≠ 0) (hi : highest c.pendingEnabled = some i) :
    c.served = c.ruled ↔ c.PicksByRule := by
  have hbit := highest_val hi
  have hlt : i.val < 64 := by cases i <;> decide
  rw [PicksByRule, or_iff_right hmode, or_iff_right hS, bitsToIntType_of_highest hi,
    served_below hmode hi, ruled_below hmode, intDest_below hmode]
  simp only [hS, false_or]
  by_cases hM : c.forM = 0
  · have hall : c.forS = c.pendingEnabled := by
      rw [← forM_or_forS, hM]
      exact BitVec.zero_or.symm
    have hne : c.pendingEnabled ≠ 0 := hall ▸ hS
    have hdeleg : c.csrMIntDelegation.getLsbD i.val = true := by
      have := hbit
      rw [← hall, getLsbD_forS, Bool.and_eq_true] at this
      exact this.2
    have henabled : c.enabledFor .sMode (MStatus.sie c.status) ↔
        c.currentPrivMode = .uMode ∨ (c.currentPrivMode = .sMode ∧ MStatus.sie c.status = true) := by
      rw [enabledFor]
      refine or_congr_left ?_
      cases c.currentPrivMode <;> decide
    simp only [hM, hall, hne, hi, hdeleg, henabled, ne_eq, not_true_eq_false, not_false_eq_true,
      and_true, if_true, if_false, true_and, false_and, or_false, Option.map_some]
    cases hm : c.currentPrivMode <;> cases MStatus.sie c.status <;>
      first | exact absurd hm hmode | simp
  · obtain ⟨j, hj⟩ := (standard_forM h).exists_highest hM
    simp only [hM, hj, ne_eq, not_false_eq_true, if_true, false_and, true_and, false_or,
      Option.map_some]
    cases hdeleg : c.csrMIntDelegation.getLsbD i.val with
    | true =>
        simp only [if_true, Bool.true_eq_false, false_and, iff_false]
        split <;> simp
    | false =>
        have hij : highest c.forM = some i := by
          refine highest_subset hi (fun k hk => ?_) ?_
          · rw [← forM_or_forS, BitVec.getLsbD_or, hk, Bool.true_or]
          · rw [getLsbD_forM c hlt, hbit, hdeleg]
            rfl
        rw [hj, Option.some.injEq] at hij
        subst hij
        simp only [Bool.false_eq_true, if_false, true_and]
        split <;> simp [*]

end Split

end RV64Core

open RV64Core

/-- `preExec` follows the rule in the states that `PicksByRule` describes, and in no
others. -/
theorem selection_iff {c : RV64Core} (h : Standard c.csrIntEnable) :
    c.FollowsRule ↔ c.beginStep.PicksByRule := by
  have hp : Standard c.beginStep.pendingEnabled := h.mono fun j hj => by
    rw [pendingEnabled, BitVec.getLsbD_and, Bool.and_eq_true] at hj
    exact hj.2
  rw [followsRule_iff hp]
  generalize c.beginStep = c at hp
  by_cases hmode : c.currentPrivMode = .mMode
  · exact iff_of_true (served_mMode hp hmode) (.inl hmode)
  by_cases hS : c.forS = 0
  · refine iff_of_true ?_ (.inr (.inl hS))
    exact served_eq_ruled_undelegated hp hmode hS
  · have hne : c.pendingEnabled ≠ 0 := fun hzero => hS (zero_of_pendingEnabled hzero).2
    obtain ⟨i, hi⟩ := hp.exists_highest hne
    exact served_eq_ruled_below hp hmode hS hi

theorem selection_iff_timer : timerPending.core.FollowsRule :=
  (selection_iff (c := timerPending.core) (by decide)).mpr (.inr (.inl (by decide)))

/-- S-mode with interrupts off, the supervisor timer pending and delegated, and the
machine timer pending and not. -/
def timerStarved : RV64Core :=
  { (default : RV64Core) with
    nextPrivMode := .sMode
    intStatus := { (default : IntStatus) with mtip := true }
    csrIntPending := 0x20
    csrIntEnable := 0xA0
    csrMIntDelegation := 0x20 }

/-- The rule takes the machine timer there.  `preExec` takes nothing. -/
theorem timerStarved_not_followsRule : ¬ ∀ c : RV64Core, Standard c.csrIntEnable → c.FollowsRule := by
  intro hall
  have hrun : preExec.run timerStarved = .ok () timerStarved.beginStep := by rfl
  have h := (hrun.symm.trans (hall timerStarved (by decide)))
  have hneed := congrArg RV64Core.needTrap (EStateM.Result.ok.inj h).2
  revert hneed
  decide

/-! ## Only interrupts are ever enabled -/

/-- The mask of M-mode leaves standard interrupts only. -/
theorem standard_and (bits : Word) : Standard (bits &&& M_MODE_INT_MASK) := by
  rw [Standard, BitVec.and_assoc, BitVec.and_self]

/-- A write through `sie` keeps the enabled interrupts standard. -/
theorem Standard.sieWrite {bits : Word} (h : Standard bits) (v : Word) :
    Standard ((bits &&& ~~~S_MODE_INT_MASK) ||| (v &&& S_MODE_INT_MASK)) := by
  have hS : Standard S_MODE_INT_MASK := by decide
  refine standard_iff.mpr fun j hj => ?_
  rw [BitVec.getLsbD_or, Bool.or_eq_true, BitVec.getLsbD_and, BitVec.getLsbD_and,
    Bool.and_eq_true, Bool.and_eq_true] at hj
  rcases hj with ⟨hj, -⟩ | ⟨-, hj⟩
  · exact standard_iff.mp h j hj
  · exact standard_iff.mp hS j hj

/-- So does every write of a control register. -/
theorem csrWriteCase_standard {v : Word} {c c' : RV64Core} {a : CSRAddr}
    (hc : Standard c.csrIntEnable) (h : c.csrWriteCase v a = some c') :
    Standard c'.csrIntEnable := by
  cases a <;> simp only [csrWriteCase, reduceCtorEq, Option.some.injEq] at h
  case mie =>
    subst h
    exact standard_and v
  case sie =>
    subst h
    exact hc.sieWrite v
  case satp =>
    split at h <;> cases h
    exact hc
  all_goals
    subst h
    exact hc

/-- Every function of the step leaves interrupts only in `mie`. -/
theorem standard_invariant : CoreInvariant (fun _ _ => True) fun c => Standard c.csrIntEnable where
  beginStep h := h
  trapped {c} h cause tval := by
    rcases c.trapped_cases cause tval with ⟨-, ht⟩ | ⟨-, ht⟩ <;> rw [ht] <;> exact h
  retire h _ _ := h
  setGPR {c} h rd value := by
    rw [setGPR_eq]
    exact h
  setPC h _ := h
  csrWrite h _ _ hw := csrWriteCase_standard h hw
  returnM h := h
  returnS h := h

/-- In a state reached from reset, `mie` holds interrupts only. -/
theorem CoreReach.standard {β : Type} [MMIOBus β] {P : Machine β → Prop} {c : RV64Core}
    (h : CoreReach P c) : Standard c.csrIntEnable :=
  standard_invariant.reach (fun _ => BitVec.zero_and) (fun _ _ h => h)
    (fun _ _ _ _ _ _ _ _ => True.intro) h

end MEmu
