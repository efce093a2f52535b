import MEmu.Mmu

/-!
# The Sv39 walk

`Sv39.walk` is the page-table walk over any way to read an entry, with no TLB.  The
walk of the MMU is the instance that reads from the bus.  A leaf answers for every
address of its page (`walk_of_samePage`), which is what lets one TLB entry serve a
page.
-/

namespace MEmu

/-! ## Pages -/

namespace PageSize

/-- The bits of an address below the page. -/
def shift : PageSize → Nat
  | invalid => 0
  | size4K => 12
  | size2M => 21
  | size1G => 30

theorem getLsbD_mask {ps : PageSize} (h : ps ≠ .invalid) {j : Nat} (hj : j < 64) :
    ps.mask.getLsbD j = decide (ps.shift ≤ j) := by
  revert j
  cases ps with
  | invalid => exact absurd rfl h
  | size4K => decide
  | size2M => decide
  | size1G => decide

/-- Two addresses of one page have the same bits from the page up. -/
theorem getLsbD_of_samePage {ps : PageSize} (h : ps ≠ .invalid) {v w : Word}
    (hvw : v &&& ps.mask = w &&& ps.mask) {j : Nat} (hj : ps.shift ≤ j) :
    v.getLsbD j = w.getLsbD j := by
  by_cases hlt : j < 64
  · have := congrArg (BitVec.getLsbD · j) hvw
    simpa only [BitVec.getLsbD_and, getLsbD_mask h hlt, decide_eq_true hj, Bool.and_true] using this
  · rw [BitVec.getLsbD_of_ge v j (Nat.le_of_not_lt hlt), BitVec.getLsbD_of_ge w j (Nat.le_of_not_lt hlt)]

/-- A field above the page offset is the same for two addresses of one page. -/
theorem get_of_samePage {ps : PageSize} (h : ps ≠ .invalid) {v w : Word}
    (hvw : v &&& ps.mask = w &&& ps.mask) {lo : Nat} (hlo : ps.shift ≤ lo) (n : Nat) :
    BitField.get lo n v = BitField.get lo n w := by
  refine BitVec.eq_of_getLsbD_eq fun j _ => ?_
  rw [BitField.getLsbD_get, BitField.getLsbD_get,
    getLsbD_of_samePage h hvw (Nat.le_trans hlo (Nat.le_add_right lo j))]

end PageSize

/-! ## Leaves -/

theorem V_of_leaf {pte : Word} (h : isValidLeafPTE pte = true) : PTE.V pte = true := by
  simp only [isValidLeafPTE, Bool.and_eq_true] at h
  exact h.1.1.1.1

/-- A leaf that is writable is readable. -/
theorem R_of_leaf {pte : Word} (h : isValidLeafPTE pte = true) (hW : PTE.W pte = true) :
    PTE.R pte = true := by
  simp only [isValidLeafPTE, hW, Bool.true_and, Bool.not_not, Bool.and_eq_true] at h
  exact h.1.1.1.2

/-- A leaf that is not readable is executable. -/
theorem X_of_leaf {pte : Word} (h : isValidLeafPTE pte = true) (hR : PTE.R pte = false) :
    PTE.X pte = true := by
  simp only [isValidLeafPTE, hR, Bool.not_false, Bool.and_true, Bool.false_or, Bool.and_eq_true,
    Bool.not_eq_true', Bool.or_eq_true] at h
  obtain ⟨⟨⟨⟨-, hW⟩, hWX⟩, -⟩, -⟩ := h
  rw [hW] at hWX
  exact hWX.resolve_left Bool.false_ne_true

theorem not_dir_of_leaf {p : Word} (h : isValidLeafPTE p = true) : isValidDirPTE p = false := by
  cases hd : isValidDirPTE p with
  | false => rfl
  | true =>
      simp only [isValidLeafPTE, isValidDirPTE, Bool.and_eq_true, Bool.not_eq_true'] at h hd
      rw [h.1.1.2] at hd
      cases hd.1.1.2

/-! ## The walk -/

namespace Sv39

/-- The leaf that the walk for `vaddr` finds, from the table at `root`, where `read`
reads an entry. -/
def walk {M : Type → Type} [Monad M] (read : Word → M Word) (root vaddr : Word) :
    M (Option (Word × PageSize)) := do
  let l2_pte ← read (root + (VAddr.vpn2 vaddr).setWidth 64 * 8)
  if isValidLeafPTE l2_pte then pure (some (l2_pte, .size1G))
  else if !isValidDirPTE l2_pte then pure none
  else
    let l1_pte ← read (PTE.ppa l2_pte + (VAddr.vpn1 vaddr).setWidth 64 * 8)
    if isValidLeafPTE l1_pte then pure (some (l1_pte, .size2M))
    else if !isValidDirPTE l1_pte then pure none
    else
      let l0_pte ← read (PTE.ppa l1_pte + (VAddr.vpn0 vaddr).setWidth 64 * 8)
      if isValidLeafPTE l0_pte then pure (some (l0_pte, .size4K))
      else pure none

variable {ε σ : Type} {read : Word → EStateM ε σ Word} {root v w pte : Word} {ps : PageSize}
  {s s' : σ}

/-- The three ways a walk finds a leaf. -/
theorem walk_leaf (h : (walk read root v).run s = .ok (some (pte, ps)) s') :
    isValidLeafPTE pte = true ∧
      ((ps = .size1G ∧ (read (root + (VAddr.vpn2 v).setWidth 64 * 8)).run s = .ok pte s') ∨
        ∃ l2_pte s₂, (read (root + (VAddr.vpn2 v).setWidth 64 * 8)).run s = .ok l2_pte s₂ ∧
          isValidLeafPTE l2_pte = false ∧ isValidDirPTE l2_pte = true ∧
          ((ps = .size2M ∧
              (read (PTE.ppa l2_pte + (VAddr.vpn1 v).setWidth 64 * 8)).run s₂ = .ok pte s') ∨
            ∃ l1_pte s₁,
              (read (PTE.ppa l2_pte + (VAddr.vpn1 v).setWidth 64 * 8)).run s₂ = .ok l1_pte s₁ ∧
              isValidLeafPTE l1_pte = false ∧ isValidDirPTE l1_pte = true ∧ ps = .size4K ∧
              (read (PTE.ppa l1_pte + (VAddr.vpn0 v).setWidth 64 * 8)).run s₁ = .ok pte s')) := by
  rw [walk, EStateM.run_bind] at h
  split at h
  case h_2 => cases h
  rename_i l2_pte s₂ hread₂
  split at h
  · rename_i hleaf
    cases h
    exact ⟨hleaf, .inl ⟨rfl, hread₂⟩⟩
  rename_i hleaf₂
  split at h
  · cases h
  rename_i hdir₂
  rw [EStateM.run_bind] at h
  split at h
  case h_2 => cases h
  rename_i l1_pte s₁ hread₁
  rw [Bool.not_eq_true] at hleaf₂
  rw [Bool.not_eq_true, Bool.not_eq_false'] at hdir₂
  split at h
  · rename_i hleaf
    cases h
    exact ⟨hleaf, .inr ⟨l2_pte, s₂, hread₂, hleaf₂, hdir₂, .inl ⟨rfl, hread₁⟩⟩⟩
  rename_i hleaf₁
  split at h
  · cases h
  rename_i hdir₁
  rw [EStateM.run_bind] at h
  split at h
  case h_2 => cases h
  rename_i l0_pte s₀ hread₀
  rw [Bool.not_eq_true] at hleaf₁
  rw [Bool.not_eq_true, Bool.not_eq_false'] at hdir₁
  split at h <;> cases h
  rename_i hleaf
  exact ⟨hleaf, .inr ⟨l2_pte, s₂, hread₂, hleaf₂, hdir₂,
    .inr ⟨l1_pte, s₁, hread₁, hleaf₁, hdir₁, rfl, hread₀⟩⟩⟩

/-- A walk that fails has failed to read. -/
theorem walk_error {e : ε} (h : (walk read root v).run s = .error e s') :
    ∃ addr t, (read addr).run t = .error e s' := by
  rw [walk, EStateM.run_bind] at h
  split at h
  case h_2 =>
    cases h
    exact ⟨_, _, ‹_›⟩
  split at h
  · cases h
  split at h
  · cases h
  rw [EStateM.run_bind] at h
  split at h
  case h_2 =>
    cases h
    exact ⟨_, _, ‹_›⟩
  split at h
  · cases h
  split at h
  · cases h
  rw [EStateM.run_bind] at h
  split at h
  case h_2 =>
    cases h
    exact ⟨_, _, ‹_›⟩
  split at h <;> cases h

theorem walk_pageSize (h : (walk read root v).run s = .ok (some (pte, ps)) s') :
    ps ≠ .invalid := by
  obtain ⟨-, ⟨rfl, -⟩ | ⟨_, _, -, -, -, ⟨rfl, -⟩ | ⟨_, _, -, -, -, rfl, -⟩⟩⟩ := walk_leaf h <;>
    exact PageSize.noConfusion

/-- The walks of two addresses of the page found are the same. -/
theorem walk_of_samePage (h : (walk read root v).run s = .ok (some (pte, ps)) s')
    (hvw : v &&& ps.mask = w &&& ps.mask) :
    (walk read root w).run s = .ok (some (pte, ps)) s' := by
  have hfield {lo : Nat} (hlo : ps.shift ≤ lo) (n : Nat) :
      BitField.get lo n w = BitField.get lo n v :=
    (PageSize.get_of_samePage (walk_pageSize h) hvw hlo n).symm
  obtain ⟨hleaf, ⟨rfl, hread₂⟩ | ⟨l2_pte, s₂, hread₂, hleaf₂, hdir₂,
    ⟨rfl, hread₁⟩ | ⟨l1_pte, s₁, hread₁, hleaf₁, hdir₁, rfl, hread₀⟩⟩⟩ := walk_leaf h
  all_goals
    have hvpn2 : VAddr.vpn2 w = VAddr.vpn2 v := hfield (by decide) 9
  · simp only [walk, hvpn2, EStateM.run_bind, hread₂, hleaf, if_true, EStateM.run_pure]
  all_goals
    have hvpn1 : VAddr.vpn1 w = VAddr.vpn1 v := hfield (by decide) 9
  · simp only [walk, hvpn2, hvpn1, EStateM.run_bind, hread₂, hleaf₂, hdir₂, hread₁, hleaf, if_true,
      if_false, Bool.not_true, Bool.false_eq_true, EStateM.run_pure]
  · have hvpn0 : VAddr.vpn0 w = VAddr.vpn0 v := hfield (by decide) 9
    simp only [walk, hvpn2, hvpn1, hvpn0, EStateM.run_bind, hread₂, hleaf₂, hdir₂, hread₁, hleaf₁,
      hdir₁, hread₀, hleaf, if_true, if_false, Bool.not_true, Bool.false_eq_true, EStateM.run_pure]

end Sv39

/-! ## The walk of the MMU -/

namespace MMUSys

variable {β : Type} [MMIOBus β]

/-- Read the page-table entry at an address. -/
def readEntry (env : MMUEnv) (addr : Word) : MMUM β Word := do
  let r ← busRead .walk addr 8 (env.uninit 8)
  cassert (r.1 = .ok) .pteRead
  pure (Bytes.toWord r.2)

theorem pageTableWalk_eq (env : MMUEnv) (vaddr : Word) :
    pageTableWalk (β := β) env vaddr = Sv39.walk (readEntry env) (Satp.ppn env.satp <<< 12) vaddr :=
  rfl

theorem pageTableWalk_pageSize {env : MMUEnv} {vaddr leaf_pte : Word} {page_size : PageSize}
    {s s' : MMUSys β}
    (h : (pageTableWalk env vaddr).run s = .ok (some (leaf_pte, page_size)) s') :
    page_size ≠ .invalid := by
  rw [pageTableWalk_eq] at h
  exact Sv39.walk_pageSize h

end MMUSys

end MEmu
