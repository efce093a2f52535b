import MEmu.Translation
import MEmu.Lib.RiscVSv39

/-!
# The page-table walk and the specification

`getTLBEntry` with an empty TLB is compared with the walk of the specification over
the same memory.  The source never looks at bit `N`, at the low bits of the page number of
a superpage, or at `U`, `A` and `D` of a pointer, and asserts that the address is canonical.
`PathSound` says that the walk of the source meets none of that.
-/

namespace MEmu

open Run (Sat)
open RV64SV39MMU
open RiscV.Sv39 (Kind)

/-! ## Entries -/

/-- The level of the leaves that map pages of this size. -/
def PageSize.level : PageSize → Nat
  | invalid => 0
  | size4K => 0
  | size2M => 1
  | size1G => 2

namespace PTE

/-- The bit that the source declares and never reads. -/
def N (p : Word) : Bool := p.getLsbD 63

/-- The page number of a leaf is a multiple of the size of its page. -/
def Aligned (p : Word) : PageSize → Prop
  | .size1G => PPN1 p = 0 ∧ PPN0 p = 0
  | .size2M => PPN0 p = 0
  | _ => True

/-- What the specification asks of a leaf beyond `isValidLeafPTE`. -/
def LeafSound (p : Word) (ps : PageSize) : Prop := N p = false ∧ Aligned p ps

/-- What the specification asks of a pointer beyond `isValidDirPTE`. -/
def DirSound (p : Word) : Prop := N p = false ∧ U p = false ∧ A p = false ∧ D p = false

instance (p : Word) (ps : PageSize) : Decidable (Aligned p ps) := by
  cases ps <;> unfold Aligned <;> infer_instance

instance (p : Word) (ps : PageSize) : Decidable (LeafSound p ps) :=
  inferInstanceAs (Decidable (_ ∧ _))

instance (p : Word) : Decidable (DirSound p) := inferInstanceAs (Decidable (_ ∧ _))

/-- The upper bits, by the fields of the source. -/
theorem upper_eq_zero (p : Word) :
    BitField.get 54 10 p = 0 ↔ (reserved p = 0 ∧ PBMT p = 0) ∧ N p = false := by
  rw [BitField.get_add_eq_zero 54 9 1, BitField.get_add_eq_zero 54 7 2]
  refine and_congr_right' ?_
  rw [BitField.get_eq_zero_iff]
  constructor
  · intro h
    exact h 0 Nat.one_pos
  · intro h i hi
    obtain rfl : i = 0 := by omega
    exact h

theorem aligned_iff (p : Word) {ps : PageSize} (h : ps ≠ .invalid) :
    RiscV.Sv39.aligned p ps.level = true ↔ Aligned p ps := by
  cases ps with
  | invalid => exact absurd rfl h
  | size4K =>
      refine beq_iff_eq.trans (iff_of_true ?_ trivial)
      exact (BitField.get_eq_zero_iff 10 0 p).mpr nofun
  | size2M => exact beq_iff_eq
  | size1G => exact beq_iff_eq.trans ((BitField.get_add_eq_zero 10 9 9 p).trans and_comm)

/-- An entry with the fields zero that the source asks for. -/
theorem reserved_eq {p : Word} (hupper : reserved p = 0 ∧ PBMT p = 0)
    (hW : (W p && !R p) = false) : RiscV.Sv39.reserved p = N p := by
  rw [RiscV.Sv39.reserved, show (RiscV.Sv39.W p && !RiscV.Sv39.R p) = false from hW, Bool.or_false]
  cases hN : N p with
  | false =>
      rw [(upper_eq_zero p).mpr ⟨hupper, hN⟩]
      rfl
  | true =>
      refine bne_iff_ne.mpr fun h => ?_
      rw [((upper_eq_zero p).mp h).2] at hN
      cases hN

/-- What the specification takes a leaf of the source for. -/
theorem kind_of_leaf {p : Word} (h : isValidLeafPTE p = true) {ps : PageSize}
    (hps : ps ≠ .invalid) :
    RiscV.Sv39.kind p ps.level = if LeafSound p ps then .leaf else .fault := by
  have hV : RiscV.Sv39.V p = true := V_of_leaf h
  simp only [isValidLeafPTE, Bool.and_eq_true, Bool.not_eq_true', beq_iff_eq] at h
  obtain ⟨⟨⟨⟨-, hW⟩, hRWX⟩, hres⟩, hpbmt⟩ := h
  have hleaf : (RiscV.Sv39.R p || RiscV.Sv39.X p) = true := by
    show (R p || X p) = true
    cases hR : R p <;> cases hX : X p <;> simp_all
  rw [RiscV.Sv39.kind, hV, reserved_eq ⟨hres, hpbmt⟩ hW, hleaf]
  cases hN : N p with
  | true => simp [LeafSound, hN]
  | false => simp [LeafSound, hN, aligned_iff p hps]

/-- What it takes a pointer of the source for. -/
theorem kind_of_dir {p : Word} (h : isValidDirPTE p = true) (i : Nat) :
    RiscV.Sv39.kind p i = if DirSound p then .pointer else .fault := by
  simp only [isValidDirPTE, Bool.and_eq_true, Bool.not_eq_true', Bool.or_eq_false_iff,
    beq_iff_eq] at h
  obtain ⟨⟨⟨hV, ⟨hR, hW⟩, hX⟩, hres⟩, hpbmt⟩ := h
  have hnoW : (W p && !R p) = false := by rw [hW, Bool.false_and]
  have hno : (RiscV.Sv39.R p || RiscV.Sv39.X p) = false := Bool.or_eq_false_iff.mpr ⟨hR, hX⟩
  rw [RiscV.Sv39.kind, show RiscV.Sv39.V p = true from hV, reserved_eq ⟨hres, hpbmt⟩ hnoW, hno]
  cases hN : N p with
  | true => simp [DirSound, hN]
  | false =>
      simp only [DirSound, hN, RiscV.Sv39.reservedPointer]
      show (if (U p || A p || D p) = true then Kind.fault else .pointer) = _
      cases U p <;> cases A p <;> cases D p <;> rfl

/-- Every other entry is a fault: a valid one without reserved bits is a leaf or a pointer. -/
theorem kind_of_invalid {p : Word} (hleaf : isValidLeafPTE p = false)
    (hdir : isValidDirPTE p = false) (i : Nat) : RiscV.Sv39.kind p i = .fault := by
  by_cases hgood : RiscV.Sv39.V p = true ∧ RiscV.Sv39.reserved p = false
  · obtain ⟨hV, hres⟩ := hgood
    rw [RiscV.Sv39.reserved, Bool.or_eq_false_iff, bne_eq_false_iff_eq] at hres
    obtain ⟨⟨hreserved, hpbmt⟩, -⟩ := (upper_eq_zero p).mp hres.1
    have hV : V p = true := hV
    have hW : (W p && !R p) = false := hres.2
    cases hany : R p || W p || X p with
    | false =>
        have hd : isValidDirPTE p = true := by simp [isValidDirPTE, hV, hany, hreserved, hpbmt]
        exact absurd (hd.symm.trans hdir) (by decide)
    | true =>
        have hl : isValidLeafPTE p = true := by simp [isValidLeafPTE, hV, hW, hany, hreserved, hpbmt]
        exact absurd (hl.symm.trans hleaf) (by decide)
  · rw [RiscV.Sv39.kind, if_pos]
    cases hV : RiscV.Sv39.V p with
    | false => rfl
    | true =>
        rw [hV, eq_self, true_and, Bool.not_eq_false] at hgood
        rw [hgood]
        rfl

end PTE

/-! ## The two walks over one memory -/

section Memory

variable (mem : Word → Word) (root v : Word)

/-- The entry for `v` in the root table, and in the two tables below it. -/
def l2Entry : Word := mem (root + (VAddr.vpn2 v).setWidth 64 * 8)
def l1Entry : Word := mem (PTE.ppa (l2Entry mem root v) + (VAddr.vpn1 v).setWidth 64 * 8)
def l0Entry : Word := mem (PTE.ppa (l1Entry mem root v) + (VAddr.vpn0 v).setWidth 64 * 8)

/-- The addresses that the walk of the source reads. -/
def OnPath (addr : Word) : Prop :=
  addr = root + (VAddr.vpn2 v).setWidth 64 * 8 ∨
    isValidDirPTE (l2Entry mem root v) = true ∧
      (addr = PTE.ppa (l2Entry mem root v) + (VAddr.vpn1 v).setWidth 64 * 8 ∨
        isValidDirPTE (l1Entry mem root v) = true ∧
          addr = PTE.ppa (l1Entry mem root v) + (VAddr.vpn0 v).setWidth 64 * 8)

/-- Where three entries lead to a leaf, those on the way to it are sound, and it is. -/
def EntriesSound (l2_pte l1_pte l0_pte : Word) : Prop :=
  (isValidLeafPTE l2_pte = true → PTE.LeafSound l2_pte .size1G) ∧
    (isValidDirPTE l2_pte = true → isValidLeafPTE l1_pte = true →
      PTE.DirSound l2_pte ∧ PTE.LeafSound l1_pte .size2M) ∧
    (isValidDirPTE l2_pte = true → isValidDirPTE l1_pte = true → isValidLeafPTE l0_pte = true →
      PTE.DirSound l2_pte ∧ PTE.DirSound l1_pte ∧ PTE.LeafSound l0_pte .size4K)

def PathSound : Prop := EntriesSound (l2Entry mem root v) (l1Entry mem root v) (l0Entry mem root v)

instance : Decidable (PathSound mem root v) := inferInstanceAs (Decidable (_ ∧ _))

/-- The walk of the source over a memory. -/
def leafOf : Option (Word × PageSize) := Id.run (Sv39.walk mem root v)

/-- A leaf of the source, as the specification names it. -/
def named (leaf : Word × PageSize) : Word × Nat := (leaf.1, leaf.2.level)

end Memory

variable {mem : Word → Word} {root v : Word}

theorem ppa_eq_next (p : Word) : PTE.ppa p = RiscV.Sv39.next p := by
  rw [PTE.ppa, RiscV.Sv39.next]
  congr 1
  refine BitVec.eq_of_getLsbD_eq fun i hi => ?_
  simp only [PTE.PPN2, PTE.PPN1, PTE.PPN0, RiscV.Sv39.ppn, BitVec.getLsbD_or,
    BitVec.getLsbD_shiftLeft, BitVec.getLsbD_setWidth, BitField.getLsbD_get, hi, decide_true,
    Bool.true_and]
  obtain h | h | h : i < 9 ∨ 9 ≤ i ∧ i < 18 ∨ 18 ≤ i := by omega
  · have h44 : i < 44 := by omega
    have h18 : i < 18 := by omega
    simp [h, h18, h44]
  · have h44 : i < 44 := by omega
    have hlo : i - 9 < 9 := by omega
    have hbit : 19 + (i - 9) = 10 + i := by omega
    have h64 : i - 9 < 64 := by omega
    simp [h.2, Nat.not_lt_of_le h.1, h44, hlo, hbit, h64]
  · have h9 : ¬i < 9 := by omega
    have hlo : ¬i - 9 < 9 := by omega
    have hbit : 28 + (i - 18) = 10 + i := by omega
    have hiff : i - 18 < 26 ↔ i < 44 := by omega
    have hlt : i - 18 < 64 := by omega
    simp [Nat.not_lt_of_le h, h9, hlo, hbit, hiff, hlt]

theorem leafOf_eq : leafOf mem root v
    = if isValidLeafPTE (l2Entry mem root v) then some (l2Entry mem root v, .size1G)
      else if !isValidDirPTE (l2Entry mem root v) then none
      else if isValidLeafPTE (l1Entry mem root v) then some (l1Entry mem root v, .size2M)
      else if !isValidDirPTE (l1Entry mem root v) then none
      else if isValidLeafPTE (l0Entry mem root v) then some (l0Entry mem root v, .size4K)
      else none := by
  rfl

theorem walk_eq : RiscV.Sv39.walk mem v 2 root
    = match RiscV.Sv39.kind (l2Entry mem root v) 2 with
      | .fault => none
      | .leaf => some (l2Entry mem root v, 2)
      | .pointer =>
          match RiscV.Sv39.kind (l1Entry mem root v) 1 with
          | .fault => none
          | .leaf => some (l1Entry mem root v, 1)
          | .pointer =>
              if RiscV.Sv39.kind (l0Entry mem root v) 0 = .leaf then some (l0Entry mem root v, 0)
              else none := by
  rw [l0Entry, l1Entry, ppa_eq_next, ppa_eq_next]
  rfl

/-- A sound path leads both walks to the same leaf, and any other leads the source to a
leaf that the specification refuses. -/
theorem walk_cases :
    (PathSound mem root v ∧ RiscV.Sv39.walk mem v 2 root = (leafOf mem root v).map named) ∨
      (¬PathSound mem root v ∧ RiscV.Sv39.walk mem v 2 root = none ∧
        leafOf mem root v ≠ none) := by
  rw [walk_eq, leafOf_eq]
  unfold PathSound EntriesSound
  generalize l2Entry mem root v = l2_pte
  generalize l1Entry mem root v = l1_pte
  generalize l0Entry mem root v = l0_pte
  cases hl2 : isValidLeafPTE l2_pte with
  | true =>
      have hk2 := PTE.kind_of_leaf hl2 (show PageSize.size1G ≠ .invalid from nofun)
      rw [PageSize.level] at hk2
      rw [hk2, not_dir_of_leaf hl2]
      by_cases hsound : PTE.LeafSound l2_pte .size1G <;> simp [hsound, named, PageSize.level]
  | false =>
    cases hd2 : isValidDirPTE l2_pte with
    | false => simp [PTE.kind_of_invalid hl2 hd2]
    | true =>
      rw [PTE.kind_of_dir hd2]
      cases hl1 : isValidLeafPTE l1_pte with
      | true =>
          have hk1 := PTE.kind_of_leaf hl1 (show PageSize.size2M ≠ .invalid from nofun)
          rw [PageSize.level] at hk1
          rw [hk1, not_dir_of_leaf hl1]
          by_cases hdir : PTE.DirSound l2_pte <;>
            by_cases hsound : PTE.LeafSound l1_pte .size2M <;>
            simp [hdir, hsound, named, PageSize.level]
      | false =>
        cases hd1 : isValidDirPTE l1_pte with
        | false => by_cases hdir : PTE.DirSound l2_pte <;> simp [hdir, PTE.kind_of_invalid hl1 hd1]
        | true =>
          rw [PTE.kind_of_dir hd1]
          cases hl0 : isValidLeafPTE l0_pte with
          | true =>
              have hk0 := PTE.kind_of_leaf hl0 (show PageSize.size4K ≠ .invalid from nofun)
              rw [PageSize.level] at hk0
              rw [hk0]
              by_cases hdir₂ : PTE.DirSound l2_pte <;> by_cases hdir₁ : PTE.DirSound l1_pte <;>
                by_cases hsound : PTE.LeafSound l0_pte .size4K <;>
                simp [hdir₂, hdir₁, hsound, named, PageSize.level]
          | false =>
              have hk0 : RiscV.Sv39.kind l0_pte 0 ≠ .leaf := by
                cases hd0 : isValidDirPTE l0_pte with
                | false => rw [PTE.kind_of_invalid hl0 hd0]; nofun
                | true => rw [PTE.kind_of_dir hd0]; split <;> nofun
              by_cases hdir₂ : PTE.DirSound l2_pte <;> by_cases hdir₁ : PTE.DirSound l1_pte <;>
                simp [hdir₂, hdir₁, hk0]

/-! ## The walk on the bus -/

section Bus

variable {β : Type} [MMIOBus β]

/-- The bus answers a read of the entry at any address of `P` with what `mem` holds there, now
and after reads of it. -/
def HoldsTable (b : β) (mem : Word → Word) (P : Word → Prop) : Prop :=
  ∀ b', BusReads b b' → ∀ addr, P addr → ∀ buffer, ∃ data b'',
    (MMIOBus.paddrReadBuffer addr 8 buffer).run b' = .ok (.ok, data) b'' ∧
      Bytes.toWord data = mem addr

variable {b : β} {P : Word → Prop}

theorem readEntry_held (h : HoldsTable b mem P) {s : MMUSys β} (hs : BusReads b s.sysBus)
    (env : MMUEnv) {addr : Word} (haddr : P addr) :
    Sat s (MMUSys.readEntry env addr)
      (fun pte s' => pte = mem addr ∧ s'.mmu = s.mmu ∧ BusReads b s'.sysBus) (fun _ _ => False) := by
  obtain ⟨data, b'', hread, hdata⟩ := h _ hs addr haddr (env.uninit 8)
  have hafter : BusReads b b'' := by
    have := hs.read addr 8 (env.uninit 8)
    rwa [hread] at this
  refine .bind (busCall_sat (fun r b' hr => ?_) fun e b' hr => ?_)
  · rw [hread] at hr
    cases hr
    exact .bind (cassert_sat (fun _ => .pure ⟨hdata, rfl, hafter⟩) fun hno => hno rfl)
  · rw [hread] at hr
    cases hr

/-- The walk of the source, where the bus holds the entries that it reads. -/
theorem pageTableWalk_held {env : MMUEnv} {s : MMUSys β} (hroot : root = Satp.ppn env.satp <<< 12)
    (h : HoldsTable s.sysBus mem (OnPath mem root v)) :
    Sat s (MMUSys.pageTableWalk env v) (fun leaf s' => leaf = leafOf mem root v ∧ s'.mmu = s.mmu)
      (fun _ _ => False) := by
  rw [MMUSys.pageTableWalk_eq, ← hroot, Sv39.walk, leafOf_eq]
  refine .bind ((readEntry_held h (.refl _) env (.inl rfl)).mono (fun l2_pte s₂ h₂ => ?_) fun _ _ => id)
  obtain ⟨hread₂, hmmu₂, hreads₂⟩ := h₂
  obtain rfl : l2_pte = l2Entry mem root v := hread₂
  refine .ite (fun hleaf => .pure ⟨(if_pos hleaf).symm, hmmu₂⟩) fun hleaf₂ => ?_
  rw [if_neg hleaf₂]
  refine .ite (fun hdir => .pure ⟨(if_pos hdir).symm, hmmu₂⟩) fun hdir₂ => ?_
  rw [if_neg hdir₂]
  have hdir₂ : isValidDirPTE (l2Entry mem root v) = true := by simpa using hdir₂
  refine .bind ((readEntry_held h hreads₂ env (.inr ⟨hdir₂, .inl rfl⟩)).mono (fun l1_pte s₁ h₁ => ?_)
    fun _ _ => id)
  obtain ⟨hread₁, hmmu₁, hreads₁⟩ := h₁
  obtain rfl : l1_pte = l1Entry mem root v := hread₁
  have hmmu := hmmu₁.trans hmmu₂
  refine .ite (fun hleaf => .pure ⟨(if_pos hleaf).symm, hmmu⟩) fun hleaf₁ => ?_
  rw [if_neg hleaf₁]
  refine .ite (fun hdir => .pure ⟨(if_pos hdir).symm, hmmu⟩) fun hdir₁ => ?_
  rw [if_neg hdir₁]
  have hdir₁ : isValidDirPTE (l1Entry mem root v) = true := by simpa using hdir₁
  refine .bind ((readEntry_held h hreads₁ env (.inr ⟨hdir₂, .inr ⟨hdir₁, rfl⟩⟩)).mono
    (fun l0_pte s₀ h₀ => ?_) fun _ _ => id)
  obtain ⟨hread₀, hmmu₀, -⟩ := h₀
  obtain rfl : l0_pte = l0Entry mem root v := hread₀
  have hmmu := hmmu₀.trans hmmu
  exact .ite (fun hleaf => .pure ⟨(if_pos hleaf).symm, hmmu⟩) fun hleaf =>
    .pure ⟨(if_neg hleaf).symm, hmmu⟩

/-- The slots are all invalid. -/
def Empty (m : RV64SV39MMU) : Prop := ∀ i, (m.tlb i).pagesize = .invalid

theorem cacheLookup_empty {m : RV64SV39MMU} (h : Empty m) (satp : Word) (ps : PageSize)
    (hps : PageSize.invalid ≠ ps) : m.cacheLookup satp v ps = none := by
  unfold cacheLookup
  split
  · rename_i i _
    rw [h i, if_neg]
    simp [hps]
  · rfl

theorem run_scanTLB_empty {m : RV64SV39MMU} (h : Empty m) (satp : Word) (todo : List TLBIndex) :
    (scanTLB satp v todo none).run m = .ok none m := by
  induction todo with
  | nil => rfl
  | cons i todo ih =>
      have hno : slotMatches satp v (m.tlb i) = false := by simp [slotMatches, h i]
      rw [scanTLB, EStateM.run_bind, EStateM.run_get]
      dsimp only
      rw [hno, if_neg Bool.false_ne_true, ih]

theorem run_lookupTLB_empty {m : RV64SV39MMU} (h : Empty m) (satp : Word) :
    (MMUSys.lookupTLB satp v).run m = .ok none m := by
  rw [MMUSys.lookupTLB, EStateM.run_bind, EStateM.run_get]
  dsimp only
  rw [cacheLookup_empty h satp .size4K nofun, cacheLookup_empty h satp .size2M nofun,
    cacheLookup_empty h satp .size1G nofun]
  exact run_scanTLB_empty h satp _

/-- The answer with an empty TLB. -/
theorem translated_empty {env : MMUEnv} {s : MMUSys β} (hmode : Satp.mode env.satp = 8)
    (hempty : Empty s.mmu) (hroot : root = Satp.ppn env.satp <<< 12)
    (hmem : HoldsTable s.sysBus mem (OnPath mem root v)) :
    translated env s v
      = if VAddr.canonical v = true then
          .ok ((leafOf mem root v).map fun leaf => leafEntry env.satp leaf.1 leaf.2 v)
        else .error .canonical := by
  have hsat : Sat s (MMUSys.getTLBEntry env v)
      (fun r s' => VAddr.canonical v = true ∧ r.map s'.mmu.tlb
        = (leafOf mem root v).map fun leaf => leafEntry env.satp leaf.1 leaf.2 v)
      (fun e _ => ¬VAddr.canonical v = true ∧ e = .canonical) := by
    refine MMUSys.getTLBEntry_sat (fun hv => ⟨hv, rfl⟩) (fun hv => ?hlook)
      (L := fun r m => VAddr.canonical v = true ∧ r = none ∧ m = s.mmu) ?hhit
      (fun _ _ hno => absurd hmode hno) ?hwalk
    case hlook =>
      rw [Sat, run_lookupTLB_empty hempty]
      exact ⟨hv, rfl, rfl⟩
    case hhit =>
      rintro i m ⟨-, hnone, -⟩
      cases hnone
    case hwalk =>
      rintro m ⟨hv, -, rfl⟩ -
      refine (pageTableWalk_held hroot hmem).mono (fun leaf s' hw => ?_) fun _ _ => False.elim
      refine ⟨fun hleaf => ⟨hv, ?_⟩, fun leaf_pte page_size hleaf => ⟨hv, ?_⟩⟩
      · rw [← hw.1, hleaf]
        rfl
      · rw [← hw.1, hleaf, Option.map_some, Option.map_some, writeTLB_tlb]
        simp only [if_pos]
  rw [translated]
  split
  · rename_i hr
    obtain ⟨hv, hentry⟩ := hsat.ok hr
    rw [if_pos hv, hentry]
  · rename_i hr
    obtain ⟨hv, rfl⟩ := hsat.error hr
    rw [if_neg hv]

end Bus

/-! ## The answer and the specification -/

/-- The entry translates the page of `v` as a leaf of the specification does. -/
structure Serves (v : Word) (e : SV39TLBEntry) (pte : Word) (i : Nat) : Prop where
  covers : v &&& e.pagesize.mask = e.vpa
  size : e.pagesize.shift = 12 + 9 * i
  addr : ∀ w, w &&& e.pagesize.mask = e.vpa →
    e.ppa + w % e.pagesize.bytes = RiscV.Sv39.physical pte i w
  perms : [e.R, e.W, e.X, e.U, e.G, e.A, e.D]
    = [RiscV.Sv39.R, RiscV.Sv39.W, RiscV.Sv39.X, RiscV.Sv39.U, RiscV.Sv39.G, RiscV.Sv39.A,
        RiscV.Sv39.D].map (· pte)

/-- The answer is the translation: an entry for a leaf, and none for a page fault. -/
def FollowsSv39 (v : Word) :
    Except Abort (Option SV39TLBEntry) → Option (Word × Nat) → Prop
  | .ok none, none => True
  | .ok (some e), some (pte, i) => Serves v e pte i
  | _, _ => False

theorem canonical_eq (v : Word) : VAddr.canonical v = RiscV.Sv39.canonical v := by
  have hsign : (VAddr.vpn2 v).getLsbD 8 = v.getLsbD 38 := by
    rw [VAddr.vpn2, BitField.getLsbD_get]
    rfl
  have hzero : VAddr.blank v = 0 ↔ ∀ i < 25, v.getLsbD (39 + i) = false :=
    BitField.get_eq_zero_iff 39 25 v
  have hones : VAddr.blank v = BitVec.allOnes 25 ↔ ∀ i < 25, v.getLsbD (39 + i) = true := by
    constructor
    · intro h i hi
      have hbit := BitField.getLsbD_get 39 25 v i
      rw [show BitField.get 39 25 v = BitVec.allOnes 25 from h, BitVec.getLsbD_allOnes,
        decide_eq_true hi, Bool.true_and] at hbit
      exact hbit.symm
    · intro h
      refine BitVec.eq_of_getLsbD_eq fun i hi => ?_
      rw [VAddr.blank, BitField.getLsbD_get, h i hi, BitVec.getLsbD_allOnes, Bool.and_true]
  rw [Bool.eq_iff_iff, RiscV.Sv39.canonical_iff, VAddr.canonical, Bool.or_eq_true,
    Bool.and_eq_true, Bool.and_eq_true, beq_iff_eq, beq_iff_eq, hzero, hones, hsign]
  have hsplit : (∀ j, 39 ≤ j → j < 64 → v.getLsbD j = v.getLsbD 38) ↔
      ∀ i < 25, v.getLsbD (39 + i) = v.getLsbD 38 := by
    constructor
    · intro h i hi
      exact h (39 + i) (by omega) (by omega)
    · intro h j hj hlt
      have := h (j - 39) (by omega)
      rwa [show 39 + (j - 39) = j by omega] at this
  rw [hsplit]
  cases v.getLsbD 38 <;> simp

theorem serves_leafEntry {satp pte v : Word} {ps : PageSize} (hps : ps ≠ .invalid)
    (halign : PTE.Aligned pte ps) : Serves v (leafEntry satp pte ps v) pte ps.level := by
  refine ⟨rfl, ?_, fun w _ => ?_, rfl⟩
  · show ps.shift = 12 + 9 * ps.level
    cases ps with
    | invalid => exact absurd rfl hps
    | size4K | size2M | size1G => rfl
  · show PTE.ppa pte + w % ps.bytes = _
    have hlevel : ps.level ≤ 2 := by cases ps <;> decide
    have hbytes : ps.bytes.toNat = 2 ^ (12 + 9 * ps.level) := by
      cases ps with
      | invalid => exact absurd rfl hps
      | size4K | size2M | size1G => rfl
    rw [RiscV.Sv39.physical_of_aligned hlevel ((PTE.aligned_iff pte hps).mpr halign), ppa_eq_next]
    congr 1
    apply BitVec.eq_of_toNat_eq
    rw [BitVec.toNat_umod, hbytes, BitVec.toNat_ofNat,
      Nat.mod_eq_of_lt (Nat.lt_of_le_of_lt (Nat.mod_le _ _) w.isLt)]

/-- A leaf on a sound path is aligned. -/
theorem aligned_of_sound (h : PathSound mem root v) {leaf : Word × PageSize}
    (hleaf : leafOf mem root v = some leaf) :
    leaf.2 ≠ .invalid ∧ PTE.Aligned leaf.1 leaf.2 := by
  obtain ⟨h2, h1, h0⟩ := h
  rw [leafOf_eq] at hleaf
  split at hleaf
  · rename_i hl2
    cases hleaf
    exact ⟨nofun, (h2 hl2).2⟩
  split at hleaf
  · cases hleaf
  rename_i hd2
  have hd2 : isValidDirPTE (l2Entry mem root v) = true := by simpa using hd2
  split at hleaf
  · rename_i hl1
    cases hleaf
    exact ⟨nofun, (h1 hd2 hl1).2.2⟩
  split at hleaf
  · cases hleaf
  split at hleaf
  · cases hleaf
    exact ⟨nofun, trivial⟩
  · cases hleaf

/-- With an empty TLB and readable page tables, `getTLBEntry` is the walk of the specification
exactly where the address is canonical and the path to the leaf is sound. -/
theorem walk_follows_sv39 {β : Type} [MMIOBus β] {env : MMUEnv} {s : MMUSys β}
    (hmode : Satp.mode env.satp = 8) (hempty : Empty s.mmu) (hroot : root = Satp.ppn env.satp <<< 12)
    (hmem : HoldsTable s.sysBus mem (OnPath mem root v)) :
    FollowsSv39 v (translated env s v) (RiscV.Sv39.translate mem root v) ↔
      VAddr.canonical v = true ∧ PathSound mem root v := by
  rw [translated_empty hmode hempty hroot hmem, RiscV.Sv39.translate, ← canonical_eq]
  by_cases hv : VAddr.canonical v = true
  · rw [if_pos hv, if_pos hv, and_iff_right hv]
    have hcases : PathSound mem root v ∧ _ ∨ _ := walk_cases
    rcases hcases with ⟨hsound, hwalk⟩ | ⟨hun, hwalk, hsome⟩
    · rw [hwalk]
      refine iff_of_true ?_ hsound
      cases hleaf : leafOf mem root v with
      | none => trivial
      | some leaf =>
          obtain ⟨hps, halign⟩ := aligned_of_sound hsound hleaf
          exact serves_leafEntry hps halign
    · rw [hwalk]
      refine iff_of_false ?_ hun
      cases hleaf : leafOf mem root v with
      | none => exact absurd hleaf hsome
      | some leaf => exact id
  · rw [if_neg hv, if_neg hv]
    exact iff_of_false id fun h => hv h.1

/-! ## Tables in RAM -/

/-- Reads of RAM change nothing that a read sees. -/
theorem RAMBus.sameView_of_reads {b b' : RAMBus} (h : BusReads b b') : RAMBus.SameView b b' := by
  induction h with
  | refl => exact .refl _
  | @read b' _ addr size buffer ih =>
      refine ih.trans ?_
      rw [RAMBus.run_read]
      split
      · exact RAMBus.sameView_find addr b'
      · split <;> exact RAMBus.sameView_find addr b'

theorem holdsTable_of_peek {b : RAMBus} {P : Word → Prop}
    (h : ∀ addr, P addr → (b.peek addr).run () = .ok (mem addr) ()) : HoldsTable b mem P := by
  intro b' hreads addr haddr buffer
  have hpeek : (b'.peek addr).run () = .ok (mem addr) () := by
    rw [(RAMBus.sameView_of_reads hreads).peek]
    exact h addr haddr
  have hread := RAMBus.read_peek b' addr buffer
  cases hr : (MMIOBus.paddrReadBuffer addr 8 buffer).run b' with
  | error e b'' =>
      have herr := hread.error hr
      rw [hpeek] at herr
      cases herr
  | ok r b'' =>
      obtain ⟨fb, data⟩ := r
      obtain ⟨-, hok⟩ := hread.ok hr
      rw [hpeek] at hok
      split at hok
      · rename_i hfb
        obtain rfl : fb = .ok := hfb
        exact ⟨data, b'', rfl, (EStateM.Result.ok.inj hok).1.symm⟩
      · cases hok

/-- A new MMU on a bus that holds one entry of the root table at address 0. -/
def rootEntry (bytes : List Byte) : MMUSys RAMBus :=
  ⟨construct default, MMIOMem.busOfBytes bytes, []⟩

theorem holdsTable_rootEntry {bytes : List Byte} {pte : Word}
    (hpeek : (RAMBus.peek (MMIOMem.busOfBytes bytes) 0).run () = .ok pte ())
    (hleaf : isValidLeafPTE pte = true) :
    HoldsTable (rootEntry bytes).sysBus (fun _ => pte) (OnPath (fun _ => pte) 0 0x123) := by
  refine holdsTable_of_peek fun addr haddr => ?_
  rcases haddr with rfl | ⟨hdir, -⟩
  · exact hpeek
  · rw [show l2Entry (fun _ => pte) 0 0x123 = pte from rfl, not_dir_of_leaf hleaf] at hdir
    cases hdir

theorem walk_follows_sv39_GiB :
    FollowsSv39 0x123 (translated rootAtZero (rootEntry [0xcf, 0, 0, 0, 0, 0, 0, 0]) 0x123)
      (RiscV.Sv39.translate (fun _ => 0xcf) 0 0x123) :=
  (walk_follows_sv39 (by decide) (fun _ => rfl) (by decide)
    (holdsTable_rootEntry rfl (by decide))).mpr (by decide)

/-- A superpage whose page number is not a multiple of its size. -/
def misalignedGiB : MMUSys RAMBus := rootEntry [0xcf, 0x04, 0, 0, 0, 0, 0, 0]

/-- The specification faults there, and the source returns an entry. -/
theorem walk_of_misalignedGiB :
    Satp.mode rootAtZero.satp = 8 ∧ Empty misalignedGiB.mmu ∧
      HoldsTable misalignedGiB.sysBus (fun _ => 0x4cf) (OnPath (fun _ => 0x4cf) 0 0x123) ∧
      ¬FollowsSv39 0x123 (translated rootAtZero misalignedGiB 0x123)
        (RiscV.Sv39.translate (fun _ => 0x4cf) 0 0x123) := by
  have hanswer : translated rootAtZero misalignedGiB 0x123
      = .ok (some (leafEntry rootAtZero.satp 0x4cf .size1G 0x123)) := by rfl
  have hfault : RiscV.Sv39.translate (fun _ => 0x4cf) 0 0x123 = none := by decide
  refine ⟨by decide, fun _ => rfl, holdsTable_rootEntry rfl (by decide), ?_⟩
  rw [hanswer, hfault]
  exact id

end MEmu
