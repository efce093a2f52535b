import MEmu.Quiet
import MEmu.Sv39
import MEmu.Lib.Coherence

/-!
# Lookups in the TLB

What `lookupTLB` finds, from the one fact its hash cache needs: a key of the cache
is the `vpa` of the slot it leads to.  A hit is a slot that matches, a miss is that
none does, and the assertion of the scan fails only where two do.  `writeTLB` and
the flush keep the fact.
-/

namespace MEmu

open Run (Sat Keeps)
open RV64SV39MMU

namespace RV64SV39MMU

/-! ## Slots -/

theorem slotMatches_iff {satp v : Word} {e : SV39TLBEntry} :
    slotMatches satp v e = true ↔
      asidMatch satp e = true ∧ e.pagesize ≠ .invalid ∧ v &&& e.pagesize.mask = e.vpa := by
  rw [slotMatches, Bool.and_eq_true, Bool.and_eq_true, bne_iff_ne, beq_iff_eq, and_assoc]

/-- The valid entries of the TLB, by slot. -/
def slots (m : RV64SV39MMU) (i : TLBIndex) : Option SV39TLBEntry :=
  if (m.tlb i).pagesize = .invalid then none else some (m.tlb i)

/-- The entry serves translations of `v`. -/
def Covers (satp : Word) (e : SV39TLBEntry) (v : Word) : Prop := slotMatches satp v e = true

theorem slots_eq_some {m : RV64SV39MMU} {i : TLBIndex} {e : SV39TLBEntry} :
    m.slots i = some e ↔ e.pagesize ≠ .invalid ∧ m.tlb i = e := by
  rw [slots]
  split
  · rename_i h
    exact ⟨nofun, fun ⟨hne, he⟩ => absurd (he ▸ h) hne⟩
  · rename_i h
    rw [Option.some.injEq]
    exact ⟨fun he => ⟨he ▸ h, he⟩, And.right⟩

theorem slots_congr {m m' : RV64SV39MMU} (h : m'.tlb = m.tlb) : m'.slots = m.slots := by
  funext i
  rw [slots, slots, h]

theorem slots_construct (storage : RV64SV39MMU) : (construct storage).slots = fun _ => none := by
  funext i
  exact if_pos rfl

/-- Each key of the cache is the `vpa` of the slot it leads to. -/
def CacheCoherent (m : RV64SV39MMU) : Prop :=
  ∀ key i, m.tlbGetCache key = some i → (m.tlb i).vpa = key

theorem CacheCoherent.construct (storage : RV64SV39MMU) : (construct storage).CacheCoherent :=
  nofun

theorem CacheCoherent.cachePut {m : RV64SV39MMU} (hm : m.CacheCoherent) {key : Word}
    {slot : Option TLBIndex} (h : ∀ i, slot = some i → (m.tlb i).vpa = key) :
    (m.cachePut key slot).CacheCoherent := by
  intro k i hk
  simp only [RV64SV39MMU.cachePut] at hk
  split at hk
  · rename_i heq
    exact (h i hk).trans heq.symm
  · exact hm k i hk

/-- The key that leads to the slot swapped out is dropped with it. -/
theorem CacheCoherent.writeTLB {m : RV64SV39MMU} (hm : m.CacheCoherent) (satp leaf_pte : Word)
    (ps : PageSize) (v : Word) : (m.writeTLB satp leaf_pte ps v).2.CacheCoherent := by
  refine CacheCoherent.cachePut (fun key i hk => ?_) fun i hi => ?_
  · simp only [RV64SV39MMU.cachePut] at hk ⊢
    split at hk
    · cases hk
    rename_i hkey
    have hold : (m.tlb i).vpa = key := hm key i hk
    split
    · rename_i hi
      exact absurd (hi ▸ hold.symm) hkey
    · exact hold
  · cases hi
    simp only [RV64SV39MMU.cachePut, if_pos]

theorem writeTLB_tlb (satp leaf_pte : Word) (ps : PageSize) (v : Word) (m : RV64SV39MMU) :
    (m.writeTLB satp leaf_pte ps v).2.tlb
      = fun j => if j = m.lastSwappedIndex then leafEntry satp leaf_pte ps v else m.tlb j := rfl

theorem slots_writeTLB {satp leaf_pte v : Word} {ps : PageSize} (hps : ps ≠ .invalid)
    (m : RV64SV39MMU) :
    (m.writeTLB satp leaf_pte ps v).2.slots
      = Function.update m.slots m.lastSwappedIndex (some (leafEntry satp leaf_pte ps v)) := by
  funext j
  rw [slots, writeTLB_tlb]
  by_cases hj : j = m.lastSwappedIndex
  · rw [hj, Function.update_self]
    simp only [if_pos]
    exact if_neg hps
  · rw [Function.update_of_ne hj, slots]
    simp only [if_neg hj]

/-- A flush drops slots. -/
theorem slots_flush {m : RV64SV39MMU} {v asid : Word} {i : TLBIndex} {e : SV39TLBEntry}
    (h : (m.flushTLBSfenceVma v asid).slots i = some e) :
    m.slots i = some e ∧ (e.asid.setWidth 64 = asid ∨ asid = 0 →
      v ≠ 0 ∧ e.vpa &&& e.pagesize.mask ≠ v &&& e.pagesize.mask) := by
  obtain ⟨hps, he⟩ := slots_eq_some.mp h
  have he : flushEntry v asid (m.tlb i) = e := he
  unfold flushEntry at he
  split at he
  · split at he
    · exact absurd (he ▸ rfl) hps
    rename_i hv
    split at he
    · exact absurd (he ▸ rfl) hps
    rename_i hne
    subst he
    exact ⟨slots_eq_some.mpr ⟨hps, rfl⟩, fun _ => ⟨hv, fun heq => hne ⟨hps, heq⟩⟩⟩
  · rename_i hasid
    subst he
    exact ⟨slots_eq_some.mpr ⟨hps, rfl⟩, fun hmatch => absurd hmatch hasid⟩

theorem CacheCoherent.flush {m : RV64SV39MMU} (hm : m.CacheCoherent) (v asid : Word) :
    (m.flushTLBSfenceVma v asid).CacheCoherent := by
  intro key i hk
  have hvpa : (flushEntry v asid (m.tlb i)).vpa = (m.tlb i).vpa := by
    unfold flushEntry
    split
    · split
      · rfl
      split <;> rfl
    · rfl
  exact hvpa.trans (hm key i hk)

/-! ## Lookups -/

/-- A lookup for `v` that returns `r`. -/
structure Looked (satp v : Word) (m : RV64SV39MMU) (r : Option TLBIndex) (m' : RV64SV39MMU) :
    Prop where
  tlb : m'.tlb = m.tlb
  swap : m'.lastSwappedIndex = m.lastSwappedIndex
  cached : m'.CacheCoherent
  hit : ∀ i, r = some i → slotMatches satp v (m.tlb i) = true
  miss : r = none → ∀ i, slotMatches satp v (m.tlb i) = false

/-- Two slots match. -/
def Ambiguous (satp v : Word) (m : RV64SV39MMU) (e : Abort) : Prop :=
  e = .tlbUnique ∧ ∃ i j, i ≠ j ∧ slotMatches satp v (m.tlb i) = true ∧
    slotMatches satp v (m.tlb j) = true

theorem cacheLookup_matches {m : RV64SV39MMU} (hm : m.CacheCoherent) {satp v : Word} {ps : PageSize}
    (hps : ps ≠ .invalid) {i : TLBIndex} (h : m.cacheLookup satp v ps = some i) :
    slotMatches satp v (m.tlb i) = true := by
  unfold cacheLookup at h
  split at h
  · rename_i slot hslot
    split at h
    · rename_i hok
      cases h
      rw [Bool.and_eq_true, beq_iff_eq] at hok
      exact slotMatches_iff.mpr ⟨hok.1, hok.2 ▸ hps, by rw [hok.2, hm _ _ hslot]⟩
    · cases h
  · cases h

/-- The scan over the slots still to visit, where `ptr` is what it has found. -/
theorem scanTLB_sat {satp v : Word} {m : RV64SV39MMU} (todo : List TLBIndex)
    (htodo : todo.Nodup) (ptr : Option TLBIndex)
    (hptr : ∀ i, ptr = some i → slotMatches satp v (m.tlb i) = true ∧ i ∉ todo) :
    Sat m (scanTLB satp v todo ptr)
      (fun r m' => m'.tlb = m.tlb ∧ m'.lastSwappedIndex = m.lastSwappedIndex ∧
        (m.CacheCoherent → m'.CacheCoherent) ∧
        (∀ i, r = some i → slotMatches satp v (m.tlb i) = true) ∧
        (∀ i, ptr = some i → r = some i) ∧
        ∀ i ∈ todo, slotMatches satp v (m.tlb i) = true → r = some i)
      (fun e _ => Ambiguous satp v m e) := by
  induction todo generalizing m ptr with
  | nil => exact .pure ⟨rfl, rfl, id, fun i hi => (hptr i hi).1, fun _ hi => hi, nofun⟩
  | cons i todo ih =>
      obtain ⟨hi, htodo⟩ := List.nodup_cons.mp htodo
      refine .bind (.get (.ite (fun hmatch => ?_) fun hno => ?_))
      · refine .bind (cassert_sat (fun hnone => .bind (.set ?_)) fun hsome => ?_)
        · have hvpa := (slotMatches_iff.mp hmatch).2.2
          have hput (hm : m.CacheCoherent) :
              (m.cachePut (v &&& (m.tlb i).pagesize.mask) (some i)).CacheCoherent :=
            hm.cachePut fun j hj => by
              cases hj
              exact hvpa.symm
          refine (ih htodo (some i) fun j hj => ?_).mono (fun r m' h => ?_) fun _ _ h => h
          · cases hj
            exact ⟨hmatch, hi⟩
          · obtain ⟨htlb, hswap, hcached, hhit, hkept, hall⟩ := h
            refine ⟨htlb, hswap, fun hm => hcached (hput hm), hhit, fun j hj => ?_, fun j hj hm => ?_⟩
            · rw [hnone] at hj
              cases hj
            · rcases List.mem_cons.mp hj with rfl | hj
              · exact hkept j rfl
              · exact hall j hj hm
        · obtain ⟨j, hj⟩ := Option.ne_none_iff_exists'.mp hsome
          have hij : i ≠ j := fun he => (hptr j hj).2 (he ▸ List.mem_cons_self)
          exact ⟨rfl, i, j, hij, hmatch, (hptr j hj).1⟩
      · refine (ih htodo ptr fun j hj => ?_).mono (fun r m' h => ?_) fun _ _ h => h
        · exact ⟨(hptr j hj).1, fun hmem => (hptr j hj).2 (List.mem_cons_of_mem _ hmem)⟩
        · obtain ⟨htlb, hswap, hcached, hhit, hkept, hall⟩ := h
          refine ⟨htlb, hswap, hcached, hhit, hkept, fun j hj hm => ?_⟩
          rcases List.mem_cons.mp hj with rfl | hj
          · exact absurd hm hno
          · exact hall j hj hm

/-- The scan over all slots: what it returns is the one slot that matches, if any. -/
theorem scanTLB_all {satp v : Word} (m : RV64SV39MMU) :
    Sat m (scanTLB satp v (List.finRange TLB_SIZE) none)
      (fun r m' => m'.tlb = m.tlb ∧ m'.lastSwappedIndex = m.lastSwappedIndex ∧
        (m.CacheCoherent → m'.CacheCoherent) ∧
        ∀ i, r = some i ↔ slotMatches satp v (m.tlb i) = true)
      (fun e _ => Ambiguous satp v m e) := by
  refine (scanTLB_sat _ (List.nodup_finRange _) none nofun).mono (fun r m' h => ?_) fun _ _ h => h
  obtain ⟨htlb, hswap, hcached, hhit, -, hall⟩ := h
  exact ⟨htlb, hswap, hcached, fun i => ⟨hhit i, hall i (List.mem_finRange i)⟩⟩

theorem lookupTLB_sat {satp v : Word} {m : RV64SV39MMU} (hm : m.CacheCoherent) :
    Sat m (MMUSys.lookupTLB satp v) (fun r m' => Looked satp v m r m')
      (fun e _ => Ambiguous satp v m e) := by
  have hhit {ps : PageSize} (hps : ps ≠ .invalid) {i : TLBIndex}
      (h : m.cacheLookup satp v ps = some i) : Looked satp v m (some i) m :=
    ⟨rfl, rfl, hm, fun j hj => by cases hj; exact cacheLookup_matches hm hps h, nofun⟩
  refine .bind (.get ?_)
  split
  · exact .pure (hhit PageSize.noConfusion ‹_›)
  split
  · exact .pure (hhit PageSize.noConfusion ‹_›)
  split
  · exact .pure (hhit PageSize.noConfusion ‹_›)
  refine (scanTLB_all m).mono (fun r m' h => ?_) fun _ _ h => h
  obtain ⟨htlb, hswap, hcached, hfound⟩ := h
  refine ⟨htlb, hswap, hcached hm, fun i hi => (hfound i).mp hi, fun hnone i => ?_⟩
  refine Bool.eq_false_iff.mpr fun hmatch => ?_
  rw [(hfound i).mpr hmatch] at hnone
  cases hnone

end RV64SV39MMU

end MEmu
