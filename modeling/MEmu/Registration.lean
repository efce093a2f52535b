import MEmu.Routing
import Mathlib.Order.CompletePartialOrder
import Mathlib.Order.Interval.Set.Disjoint

/-!
# The address map

What a sequence of registrations makes of the address map.  A region is half-open, but
`isAddrInRange` takes in its end, and the conflict test of `RegisterMMIODev_MMIOBus_API` asks
whether a registered region begins or ends within the new one, ends included.  So it turns down
a region that only touches another, and lets one in that another surrounds.

The second half is the lookup, whose cache outlives the registrations.
-/

namespace MEmu

namespace MMIODev

variable {δ : Type} (d d' : MMIODev δ)

/-! ## Regions -/

def beginAddr : Nat := d.devBaseAddr.toNat

def endAddr : Nat := d.devBaseAddr.toNat + d.addrRegionSize.toNat

/-- The addresses of the device. -/
def region : Set Nat := Set.Ico d.beginAddr d.endAddr

/-- The end of the region, which `isAddrInRange` takes for an address of the device, is one. -/
def NonWrapping : Prop := d.endAddr < 2 ^ 64

/-- The regions have an address in common. -/
def Shares : Prop := max d.beginAddr d'.beginAddr < min d.endAddr d'.endAddr

/-- There is an address between the regions. -/
def Clear : Prop := d.endAddr < d'.beginAddr ∨ d'.endAddr < d.beginAddr

/-- The region of `d'` begins or ends within that of `d`, ends included. -/
def EndsIn : Prop :=
  (d.beginAddr ≤ d'.beginAddr ∧ d'.beginAddr ≤ d.endAddr) ∨
    (d.beginAddr ≤ d'.endAddr ∧ d'.endAddr ≤ d.endAddr)

instance : Decidable d.NonWrapping := inferInstanceAs (Decidable (_ < _))
instance : Decidable (d.Shares d') := inferInstanceAs (Decidable (_ < _))
instance : Decidable (d.Clear d') := inferInstanceAs (Decidable (_ ∨ _))
instance : Decidable (d.EndsIn d') := inferInstanceAs (Decidable (_ ∨ _))

variable {d d'}

theorem disjoint_region : Disjoint d.region d'.region ↔ ¬d.Shares d' := by
  rw [region, region, Set.Ico_disjoint_Ico, Shares, Nat.not_lt]

theorem NonWrapping.toNat_end (h : d.NonWrapping) :
    (d.devBaseAddr + d.addrRegionSize).toNat = d.endAddr := by
  exact (BitVec.toNat_add _ _).trans (Nat.mod_eq_of_lt h)

/-- The conflict test. -/
theorem isAddrRegionConflict_iff (h : d.NonWrapping) (h' : d'.NonWrapping) :
    d.isAddrRegionConflict d' = true ↔ d.EndsIn d' := by
  simp only [isAddrRegionConflict, Bool.or_eq_true, Bool.and_eq_true, decide_eq_true_eq,
    BitVec.le_def, h.toNat_end, h'.toNat_end]
  rfl

theorem NonWrapping.inRange_iff (h : d.NonWrapping) {addr : Word} :
    d.isAddrInRange addr = true ↔ d.beginAddr ≤ addr.toNat ∧ addr.toNat ≤ d.endAddr := by
  rw [isAddrInRange_iff, BitVec.le_def, BitVec.le_def, h.toNat_end]
  rfl

theorem Clear.not_endsIn (h : d.Clear d') : ¬d.EndsIn d' := by
  simp only [Clear, EndsIn, beginAddr, endAddr] at *
  omega

theorem Clear.disjoint (h : d.Clear d') : Disjoint d.region d'.region := by
  rw [disjoint_region]
  simp only [Clear, Shares] at *
  omega

/-- Both ranges hold an address exactly where the regions are not clear of one another. -/
theorem clear_iff (h : d.NonWrapping) (h' : d'.NonWrapping) :
    d.Clear d' ↔ ∀ addr, d.isAddrInRange addr = true → ¬d'.isAddrInRange addr = true := by
  constructor
  · intro hclear addr hin hin'
    rw [h.inRange_iff] at hin
    rw [h'.inRange_iff] at hin'
    simp only [Clear] at hclear
    omega
  · intro hnone
    by_contra hclear
    have hmax : max d.beginAddr d'.beginAddr < 2 ^ 64 :=
      max_lt d.devBaseAddr.isLt d'.devBaseAddr.isLt
    have haddr : (BitVec.ofNat 64 (max d.beginAddr d'.beginAddr)).toNat
        = max d.beginAddr d'.beginAddr := Nat.mod_eq_of_lt hmax
    refine hnone (BitVec.ofNat 64 (max d.beginAddr d'.beginAddr)) (h.inRange_iff.mpr ?_)
      (h'.inRange_iff.mpr ?_)
    all_goals
      rw [haddr]
      simp only [Clear, beginAddr, endAddr] at *
      omega

end MMIODev

namespace MEmuMMIOBus

variable {δ : Type} {b b' : MEmuMMIOBus δ} {h : DevHandle} {base_addr : Word}

/-! ## One registration -/

/-- The device object of `h`, with the base address it is registered at. -/
def placed (b : MEmuMMIOBus δ) (h : DevHandle) (base_addr : Word) : MMIODev δ :=
  { b.obj h with devBaseAddr := base_addr }

/-- The call returns. -/
def Accepts (b : MEmuMMIOBus δ) (h : DevHandle) (base_addr : Word) : Prop :=
  ∃ fb b', (registerMMIODev h base_addr).run b = .ok fb b'

/-- No address has two devices. -/
structure Unambiguous (b : MEmuMMIOBus δ) : Prop where
  disjoint : b.mmioDevs.Pairwise fun h k => Disjoint (b.obj h).region (b.obj k).region
  unique : ∀ addr, ∀ h ∈ b.mmioDevs, ∀ k ∈ b.mmioDevs, (b.obj h).isAddrInRange addr = true →
    (b.obj k).isAddrInRange addr = true → h = k

/-- Registered devices end below the last address. -/
def EndsBelow (b : MEmuMMIOBus δ) : Prop := ∀ k ∈ b.mmioDevs, (b.obj k).NonWrapping

/-- Where the conflict test is right about a registration: the new region is clear of every
registered one, or it shares an address with one and the test sees that there is one.  A
device registered already always conflicts with itself. -/
def Discerned (b : MEmuMMIOBus δ) (h : DevHandle) (base_addr : Word) : Prop :=
  (h ∉ b.mmioDevs ∧ ∀ k ∈ b.mmioDevs, (b.placed h base_addr).Clear (b.obj k)) ∨
    (∃ k ∈ b.mmioDevs, (b.placed h base_addr).Shares (b.obj k)) ∧
      (h ∈ b.mmioDevs ∨ ∃ k ∈ b.mmioDevs, (b.placed h base_addr).EndsIn (b.obj k))

theorem obj_setObj_of_ne {d : MMIODev δ} {k : DevHandle} (hne : k ≠ h) :
    (b.setObj h d).obj k = b.obj k := if_neg hne

theorem obj_setObj_self {d : MMIODev δ} : (b.setObj h d).obj h = d := if_pos rfl

/-- Some registered device conflicts with that of `h`. -/
def conflicts (b : MEmuMMIOBus δ) (h : DevHandle) (base_addr : Word) : Bool :=
  b.mmioDevs.any fun k =>
    (b.placed h base_addr).isAddrRegionConflict ((b.setObj h (b.placed h base_addr)).obj k)

/-- The bus with the device of `h` sorted in. -/
def withDev (b : MEmuMMIOBus δ) (h : DevHandle) (base_addr : Word) : MEmuMMIOBus δ :=
  let b := b.setObj h (b.placed h base_addr)
  { b with
    mmioDevs := (b.mmioDevs ++ [h]).insertionSort fun d1 d2 =>
      (b.obj d1).devBaseAddr ≤ (b.obj d2).devBaseAddr }

theorem run_registerMMIODev (b : MEmuMMIOBus δ) (h : DevHandle) (base_addr : Word) :
    (registerMMIODev h base_addr).run b
      = if b.conflicts h base_addr then
          .error .regionConflict (b.setObj h (b.placed h base_addr))
        else .ok .ok (b.withDev h base_addr) := by
  have hself : (b.setObj h (b.placed h base_addr)).obj h = b.placed h base_addr := obj_setObj_self
  have hany : (b.mmioDevs.any fun d =>
      ((b.setObj h (b.placed h base_addr)).obj h).isAddrRegionConflict
        ((b.setObj h (b.placed h base_addr)).obj d)) = b.conflicts h base_addr := by
    rw [hself]
    rfl
  show (if (b.mmioDevs.any fun d =>
      ((b.setObj h (b.placed h base_addr)).obj h).isAddrRegionConflict
        ((b.setObj h (b.placed h base_addr)).obj d)) = true then _ else _ : EStateM _ _ _) _ = _
  rw [hany]
  split <;> rfl

theorem accepts_iff_conflicts : b.Accepts h base_addr ↔ b.conflicts h base_addr = false := by
  rw [Accepts, run_registerMMIODev]
  cases b.conflicts h base_addr <;> simp

theorem perm_withDev : (b.withDev h base_addr).mmioDevs.Perm (b.mmioDevs ++ [h]) :=
  List.perm_insertionSort _ _

theorem mem_withDev {k : DevHandle} :
    k ∈ (b.withDev h base_addr).mmioDevs ↔ k ∈ b.mmioDevs ∨ k = h := by
  rw [perm_withDev.mem_iff, List.mem_append, List.mem_singleton]

/-- A registration fails exactly where the device is registered already, or some region begins
or ends within the new one. -/
theorem accepts_iff (hb : b.EndsBelow) (hnew : (b.placed h base_addr).NonWrapping) :
    b.Accepts h base_addr ↔
      h ∉ b.mmioDevs ∧ ∀ k ∈ b.mmioDevs, ¬(b.placed h base_addr).EndsIn (b.obj k) := by
  rw [accepts_iff_conflicts, conflicts, List.any_eq_false]
  constructor
  · intro hno
    have hfresh : h ∉ b.mmioDevs := by
      intro hmem
      refine hno h hmem ?_
      rw [obj_setObj_self]
      exact MMIODev.isAddrRegionConflict_self hnew
    refine ⟨hfresh, fun k hk hends => hno k hk ?_⟩
    rw [obj_setObj_of_ne (ne_of_mem_of_not_mem hk hfresh)]
    exact (MMIODev.isAddrRegionConflict_iff hnew (hb k hk)).mpr hends
  · rintro ⟨hfresh, hno⟩ k hk hconflict
    rw [obj_setObj_of_ne (ne_of_mem_of_not_mem hk hfresh),
      MMIODev.isAddrRegionConflict_iff hnew (hb k hk)] at hconflict
    exact hno k hk hconflict

/-- What a new device adds to the bus. -/
theorem unambiguous_withDev (hb : b.Unambiguous) (hfresh : h ∉ b.mmioDevs) :
    (b.withDev h base_addr).Unambiguous ↔
      (∀ k ∈ b.mmioDevs, Disjoint (b.placed h base_addr).region (b.obj k).region) ∧
      ∀ k ∈ b.mmioDevs, ∀ addr, (b.placed h base_addr).isAddrInRange addr = true →
        ¬(b.obj k).isAddrInRange addr = true := by
  have hself : (b.withDev h base_addr).obj h = b.placed h base_addr := obj_setObj_self
  have hold : ∀ k ∈ b.mmioDevs, (b.withDev h base_addr).obj k = b.obj k := fun k hk =>
    obj_setObj_of_ne (ne_of_mem_of_not_mem hk hfresh)
  have hpair : (b.withDev h base_addr).mmioDevs.Pairwise
        (fun h' k => Disjoint ((b.withDev h base_addr).obj h').region
          ((b.withDev h base_addr).obj k).region) ↔
      ∀ k ∈ b.mmioDevs, Disjoint (b.placed h base_addr).region (b.obj k).region := by
    rw [perm_withDev.pairwise_iff fun {_ _} hd => hd.symm, List.pairwise_append]
    have hbefore : b.mmioDevs.Pairwise fun h' k => Disjoint ((b.withDev h base_addr).obj h').region
        ((b.withDev h base_addr).obj k).region := by
      refine hb.disjoint.imp_of_mem fun {j k} hj hk hd => ?_
      rw [hold j hj, hold k hk]
      exact hd
    constructor
    · rintro ⟨-, -, hcross⟩ k hk
      have hd := hcross k hk h List.mem_cons_self
      rw [hold k hk, hself] at hd
      exact hd.symm
    · intro hall
      refine ⟨hbefore, List.pairwise_singleton _ _, fun k hk j hj => ?_⟩
      rw [List.mem_singleton.mp hj, hold k hk, hself]
      exact (hall k hk).symm
  constructor
  · intro hu
    refine ⟨hpair.mp hu.disjoint, fun k hk addr hin hkin => ?_⟩
    rw [← hself] at hin
    rw [← hold k hk] at hkin
    have heq := hu.unique addr h (mem_withDev.mpr (.inr rfl)) k (mem_withDev.mpr (.inl hk)) hin hkin
    exact hfresh (heq ▸ hk)
  · rintro ⟨hdisjoint, hnone⟩
    refine ⟨hpair.mpr hdisjoint, fun addr j hj k hk hjin hkin => ?_⟩
    rcases mem_withDev.mp hj with hjold | hjnew <;> rcases mem_withDev.mp hk with hkold | hknew
    · rw [hold j hjold] at hjin
      rw [hold k hkold] at hkin
      exact hb.unique addr j hjold k hkold hjin hkin
    · rw [hold j hjold] at hjin
      rw [hknew, hself] at hkin
      exact absurd hjin (hnone j hjold addr hkin)
    · rw [hjnew, hself] at hjin
      rw [hold k hkold] at hkin
      exact absurd hkin (hnone k hkold addr hjin)
    · rw [hjnew, hknew]

/-- What one call owes the address map. -/
def CallKept (b : MEmuMMIOBus δ) (h : DevHandle) (base_addr : Word) : Prop :=
  (b.Accepts h base_addr ↔
    ∀ k ∈ b.mmioDevs, Disjoint (b.placed h base_addr).region (b.obj k).region) ∧
  ∀ fb b', (registerMMIODev h base_addr).run b = .ok fb b' → b'.Unambiguous

/-- One call keeps the address map exactly where it is discerned. -/
theorem callKept_iff (hb : b.Unambiguous) (hends : b.EndsBelow)
    (hnew : (b.placed h base_addr).NonWrapping) :
    b.CallKept h base_addr ↔ b.Discerned h base_addr := by
  have hrun : ∀ fb b', (registerMMIODev h base_addr).run b = .ok fb b' →
      b.Accepts h base_addr ∧ b' = b.withDev h base_addr := by
    intro fb b' hr
    refine ⟨⟨fb, b', hr⟩, ?_⟩
    rw [run_registerMMIODev] at hr
    split at hr <;> cases hr
    rfl
  have hok : b.Accepts h base_addr → ∃ fb, (registerMMIODev h base_addr).run b
      = .ok fb (b.withDev h base_addr) := by
    rintro ⟨fb, b', hr⟩
    exact ⟨fb, (hrun fb b' hr).2 ▸ hr⟩
  have hshares : (¬∀ k ∈ b.mmioDevs, Disjoint (b.placed h base_addr).region (b.obj k).region) ↔
      ∃ k ∈ b.mmioDevs, (b.placed h base_addr).Shares (b.obj k) := by
    simp only [MMIODev.disjoint_region, not_forall, not_not, exists_prop]
  have hclear : ∀ k ∈ b.mmioDevs, (b.placed h base_addr).Clear (b.obj k) ↔
      ∀ addr, (b.placed h base_addr).isAddrInRange addr = true →
        ¬(b.obj k).isAddrInRange addr = true :=
    fun k hk => MMIODev.clear_iff hnew (hends k hk)
  have haccepts := accepts_iff hends hnew
  constructor
  · rintro ⟨hiff, hafter⟩
    by_cases hacc : b.Accepts h base_addr
    · obtain ⟨fb, hr⟩ := hok hacc
      have hfresh := (haccepts.mp hacc).1
      have hnone := ((unambiguous_withDev hb hfresh).mp (hafter fb _ hr)).2
      exact .inl ⟨hfresh, fun k hk => (hclear k hk).mpr (hnone k hk)⟩
    · refine .inr ⟨hshares.mp fun hall => hacc (hiff.mpr hall), ?_⟩
      by_contra hno
      rw [not_or] at hno
      exact hacc (haccepts.mpr ⟨hno.1, fun k hk he => hno.2 ⟨k, hk, he⟩⟩)
  · rintro (⟨hfresh, hall⟩ | ⟨hshare, hends'⟩)
    · have hacc := haccepts.mpr ⟨hfresh, fun k hk => (hall k hk).not_endsIn⟩
      have hdisjoint : ∀ k ∈ b.mmioDevs,
          Disjoint (b.placed h base_addr).region (b.obj k).region :=
        fun k hk => (hall k hk).disjoint
      refine ⟨iff_of_true hacc hdisjoint, fun fb b' hr => ?_⟩
      rw [(hrun fb b' hr).2]
      exact (unambiguous_withDev hb hfresh).mpr
        ⟨hdisjoint, fun k hk => (hclear k hk).mp (hall k hk)⟩
    · have hno : ¬b.Accepts h base_addr := by
        intro hacc
        obtain ⟨hfresh, hnone⟩ := haccepts.mp hacc
        rcases hends' with hmem | ⟨k, hk, he⟩
        · exact hfresh hmem
        · exact hnone k hk he
      exact ⟨iff_of_false hno (hshares.mpr hshare), fun fb b' hr => absurd (hrun fb b' hr).1 hno⟩

/-! ## Sequences of registrations -/

/-- `Φ` holds of each call, as long as the calls before it have returned. -/
def EachCall (Φ : MEmuMMIOBus δ → DevHandle → Word → Prop) :
    List (DevHandle × Word) → MEmuMMIOBus δ → Prop
  | [], _ => True
  | (h, base_addr) :: calls, b =>
      Φ b h base_addr ∧
        ∀ fb b', (registerMMIODev h base_addr).run b = .ok fb b' → EachCall Φ calls b'

/-- Every region of a sequence of calls ends below the last address. -/
def CallsNonWrapping (calls : List (DevHandle × Word)) (b : MEmuMMIOBus δ) : Prop :=
  ∀ call ∈ calls, (b.placed call.1 call.2).NonWrapping

theorem addrRegionSize_withDev (k : DevHandle) :
    ((b.withDev h base_addr).obj k).addrRegionSize = (b.obj k).addrRegionSize := by
  by_cases hk : k = h
  · have hobj : (b.withDev h base_addr).obj k = b.placed k base_addr := by
      rw [hk]
      exact obj_setObj_self
    rw [hobj]
    rfl
  · exact congrArg MMIODev.addrRegionSize (obj_setObj_of_ne hk)

theorem CallsNonWrapping.withDev {calls : List (DevHandle × Word)} (hc : CallsNonWrapping calls b) :
    CallsNonWrapping calls (b.withDev h base_addr) := by
  intro call hcall
  have hnw := hc call hcall
  unfold MMIODev.NonWrapping MMIODev.endAddr placed at *
  rwa [addrRegionSize_withDev]

theorem EndsBelow.withDev (hb : b.EndsBelow) (hnew : (b.placed h base_addr).NonWrapping)
    (hfresh : h ∉ b.mmioDevs) : (b.withDev h base_addr).EndsBelow := by
  intro k hk
  rcases mem_withDev.mp hk with hold | rfl
  · have hobj : (b.withDev h base_addr).obj k = b.obj k :=
      obj_setObj_of_ne (ne_of_mem_of_not_mem hold hfresh)
    rw [hobj]
    exact hb k hold
  · have hobj : (b.withDev k base_addr).obj k = b.placed k base_addr := obj_setObj_self
    rw [hobj]
    exact hnew

/-- From a bus of this kind a call that was kept leads to one of the same kind, so the calls are
judged one by one. -/
theorem eachCall_iff {calls : List (DevHandle × Word)} (hb : b.Unambiguous) (hends : b.EndsBelow)
    (hcalls : CallsNonWrapping calls b) :
    EachCall CallKept calls b ↔ EachCall Discerned calls b := by
  induction calls generalizing b with
  | nil => exact Iff.rfl
  | cons call calls ih =>
      obtain ⟨h, base_addr⟩ := call
      obtain ⟨hnew, hrest⟩ := List.forall_mem_cons.mp hcalls
      have hstep := callKept_iff hb hends hnew
      have hnext : b.CallKept h base_addr → ∀ fb b',
          (registerMMIODev h base_addr).run b = .ok fb b' →
            (EachCall CallKept calls b' ↔ EachCall Discerned calls b') := by
        intro hkept fb b' hr
        have hfresh := ((accepts_iff hends hnew).mp ⟨fb, b', hr⟩).1
        have hu := hkept.2 fb b' hr
        rw [run_registerMMIODev] at hr
        split at hr <;> cases hr
        exact ih hu (hends.withDev hnew hfresh) (CallsNonWrapping.withDev hrest)
      constructor
      · rintro ⟨hkept, hall⟩
        exact ⟨hstep.mp hkept, fun fb b' hr => (hnext hkept fb b' hr).mp (hall fb b' hr)⟩
      · rintro ⟨hdiscerned, hall⟩
        have hkept := hstep.mpr hdiscerned
        exact ⟨hkept, fun fb b' hr => (hnext hkept fb b' hr).mpr (hall fb b' hr)⟩

/-- A sequence of registrations keeps the address map exactly where the conflict test is right
about each of them. -/
theorem registrations_keep_map (obj : DevHandle → MMIODev δ) (calls : List (DevHandle × Word))
    (hcalls : CallsNonWrapping calls (empty obj)) :
    EachCall CallKept calls (empty obj) ↔ EachCall Discerned calls (empty obj) :=
  eachCall_iff ⟨.nil, nofun⟩ nofun hcalls

/-- RAM of 16 bytes, and RAM of 4. -/
def twoRAMs : DevHandle → MMIODev MMIOMem
  | 0 => MMIOMem.ofBytes (List.replicate 16 0)
  | _ => MMIOMem.ofBytes (List.replicate 4 0)

/-- The bus with the first of them at 0. -/
def firstRAM : MEmuMMIOBus MMIOMem := (empty twoRAMs).withDev 0 0

/-- Two regions with a gap between them. -/
theorem registrations_keep_map_gap : EachCall CallKept [(0, 0), (1, 32)] (empty twoRAMs) := by
  have hcalls : CallsNonWrapping [(0, 0), (1, 32)] (empty twoRAMs) := by
    rintro call (_ | ⟨_, _ | ⟨_, ⟨⟩⟩⟩) <;> decide
  refine (registrations_keep_map twoRAMs _ hcalls).mpr ⟨.inl ⟨nofun, nofun⟩, ?_⟩
  rintro fb b' hr
  cases hr
  refine ⟨.inl ⟨show 1 ∉ [0] by decide, fun k hk => ?_⟩, fun _ _ _ => trivial⟩
  obtain rfl : k = 0 := List.mem_singleton.mp hk
  show (firstRAM.placed 1 32).Clear (firstRAM.obj 0)
  decide

/-- The second region lies within the first. -/
theorem registered_within : ¬EachCall CallKept [(0, 0), (1, 4)] (empty twoRAMs) := by
  rintro ⟨-, hnext⟩
  have hfirst : (registerMMIODev 0 0).run (empty twoRAMs) = .ok .ok firstRAM := rfl
  obtain ⟨⟨hiff, -⟩, -⟩ := hnext _ _ hfirst
  have hacc : firstRAM.Accepts 1 4 := ⟨_, _, rfl⟩
  have hdisjoint := hiff.mp hacc 0 (show 0 ∈ [0] by decide)
  rw [MMIODev.disjoint_region] at hdisjoint
  revert hdisjoint
  decide

/-! ## The lookup cache -/

/-- The devices are in an order that a sort by base address may leave them in. -/
structure BaseSorted (b : MEmuMMIOBus δ) (devs : List DevHandle) : Prop where
  perm : devs.Perm b.mmioDevs
  sorted : devs.Pairwise fun d1 d2 => (b.obj d1).devBaseAddr ≤ (b.obj d2).devBaseAddr

/-- The bus with its devices in that order, and nothing cached. -/
def uncached (b : MEmuMMIOBus δ) (devs : List DevHandle) : MEmuMMIOBus δ :=
  { b with mmioDevs := devs, devFindCache := fun _ => none }

variable {devs : List DevHandle} {addr : Word}

theorem BaseSorted.first_iff (hd : b.BaseSorted devs) :
    (b.uncached devs).First addr h ↔ b.First addr h := by
  constructor
  · intro hf
    exact ⟨hd.perm.mem_iff.mp hf.registered, hf.inRange,
      fun k hk hin => hf.lowest k (hd.perm.mem_iff.mpr hk) hin⟩
  · intro hf
    exact ⟨hd.perm.mem_iff.mpr hf.registered, hf.inRange,
      fun k hk hin => hf.lowest k (hd.perm.mem_iff.mp hk) hin⟩

theorem BaseSorted.routed (hd : b.BaseSorted devs) (hb : b.Routed) :
    (b.uncached devs).Routed where
  sorted := hd.sorted
  distinct addr j hj k hk :=
    hb.distinct addr j (hd.perm.mem_iff.mp hj) k (hd.perm.mem_iff.mp hk)
  cached := nofun

/-- A scan of the devices finds the one of lowest base among those in range. -/
theorem scan_iff (hb : b.Routed) (hd : b.BaseSorted devs) :
    (devs.find? fun d => (b.obj d).isAddrInRange addr) = some h ↔ b.First addr h := by
  have hscan : ((b.uncached devs).findDevAccordingToAddr addr).1
      = devs.find? fun d => (b.obj d).isAddrInRange addr := by
    rw [findDev_fst]
    rfl
  rw [← hscan, findDev_iff (hd.routed hb), hd.first_iff]

/-- In every state of the bus, the lookup finds what a scan of the devices finds, in whatever
order the sort has left devices of one base. -/
theorem lookup_is_scan [MMIODevI δ] (hb : BusReach KeepsInRange b) (addr : Word) :
    b.BaseSorted b.mmioDevs ∧ ∀ devs, b.BaseSorted devs →
      (b.findDevAccordingToAddr addr).1 = devs.find? fun d => (b.obj d).isAddrInRange addr := by
  refine ⟨⟨.refl _, hb.routed.sorted⟩, fun devs hd => ?_⟩
  ext h
  rw [findDev_iff hb.routed, scan_iff hb.routed hd]

/-- A device registered below another after a lookup. -/
theorem lookup_is_scan_cached :
    ∃ b : MEmuMMIOBus MMIOMem, BusReach KeepsInRange b ∧ b.devFindCache 40 = some 0 ∧
      b.mmioDevs = [1, 0] ∧ (b.findDevAccordingToAddr 40).1 = b.scanDevs 40 := by
  have h₀ : BusReach KeepsInRange (empty twoRAMs) := .empty twoRAMs
  have h₁ : BusReach KeepsInRange ((empty twoRAMs).withDev 0 32) := h₀.register 0 32 nofun rfl
  have h₂ : BusReach KeepsInRange _ := h₁.read 40 4 [] rfl
  have h₃ := h₂.register 1 0 (fun hmem => absurd hmem (by decide)) rfl
  have hscan := lookup_is_scan h₃ 40
  exact ⟨_, h₃, by decide, by decide, hscan.2 _ hscan.1⟩

end MEmuMMIOBus

end MEmu
