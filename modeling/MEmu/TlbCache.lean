import MEmu.ScanUnique

/-!
# The lookup cache of the TLB

Three lookups in `tlbGetCache` come before the scan of the slots.  A fill drops one key and adds
one, a scan adds one for each match, and a fence drops none, so a key may lead to a slot that is
invalid, of another page size or of another address space.  It never leads to a slot of another
address, and what a lookup returns the scan would have accepted.
-/

namespace MEmu

open Run (Sat)
open RV64SV39MMU

namespace RV64SV39MMU

/-- The slot that the three lookups return. -/
def cached (satp vaddr : Word) (m : RV64SV39MMU) : Option TLBIndex :=
  ((m.cacheLookup satp vaddr .size4K).or (m.cacheLookup satp vaddr .size2M)).or
    (m.cacheLookup satp vaddr .size1G)

/-- The linear scan accepts the entry for `v`. -/
structure Accepted (satp v : Word) (e : SV39TLBEntry) : Prop where
  valid : e.pagesize ≠ .invalid
  page : e.vpa = v &&& e.pagesize.mask
  space : e.asid = Satp.asid satp ∨ e.G = true

theorem accepted_iff {satp v : Word} {e : SV39TLBEntry} :
    Accepted satp v e ↔ slotMatches satp v e = true := by
  rw [slotMatches_iff, asidMatch, Bool.or_eq_true, beq_iff_eq]
  constructor
  · intro h
    exact ⟨h.space, h.valid, h.page.symm⟩
  · intro h
    exact ⟨h.2.1, h.2.2.symm, h.1⟩

/-- A slot that the lookups return is found by one of them. -/
theorem cached_eq_some {satp v : Word} {m : RV64SV39MMU} {i : TLBIndex}
    (h : m.cached satp v = some i) :
    ∃ ps, ps ≠ .invalid ∧ m.cacheLookup satp v ps = some i := by
  simp only [cached, Option.or_eq_some_iff] at h
  rcases h with (h | ⟨-, h⟩) | ⟨-, h⟩
  · exact ⟨.size4K, PageSize.noConfusion, h⟩
  · exact ⟨.size2M, PageSize.noConfusion, h⟩
  · exact ⟨.size1G, PageSize.noConfusion, h⟩

/-- Where a lookup hits, the slots are not scanned. -/
theorem run_lookupTLB_cached {satp v : Word} {m : RV64SV39MMU} {i : TLBIndex}
    (h : m.cached satp v = some i) : (MMUSys.lookupTLB satp v).run m = .ok (some i) m := by
  rw [cached] at h
  rw [MMUSys.lookupTLB, EStateM.run_bind, EStateM.run_get]
  dsimp only
  cases h4K : m.cacheLookup satp v .size4K with
  | some j =>
      rw [h4K] at h
      cases h
      rfl
  | none =>
      cases h2M : m.cacheLookup satp v .size2M with
      | some j =>
          rw [h4K, h2M] at h
          cases h
          rfl
      | none =>
          rw [h4K, h2M] at h
          rw [show m.cacheLookup satp v .size1G = some i from h]
          rfl

end RV64SV39MMU

/-! ## Runs -/

section Runs

variable {β : Type} [MMIOBus β] {s : MMUSys β}

/-- The lookup cache shortcuts the scan, and no more. -/
structure CacheShortcuts (s : MMUSys β) : Prop where
  key : ∀ k i, s.mmu.tlbGetCache k = some i → (s.mmu.tlb i).vpa = k
  target : ∀ k k' i, s.mmu.tlbGetCache k = some i → s.mmu.tlbGetCache k' = some i → k = k'
  hit : ∀ (env : MMUEnv) (v : Word) (i : TLBIndex), VAddr.canonical v = true →
    s.mmu.cached env.satp v = some i →
      (MMUSys.getTLBEntry env v).run s = .ok (some i) s ∧
        Accepted env.satp v (s.mmu.tlb i) ∧
        ∀ r m', (scanTLB env.satp v (List.finRange TLB_SIZE) none).run s.mmu = .ok r m' →
          r = some i

theorem run_getTLBEntry_cached {env : MMUEnv} {v : Word} {i : TLBIndex}
    (hv : VAddr.canonical v = true) (h : s.mmu.cached env.satp v = some i) :
    (MMUSys.getTLBEntry env v).run s = .ok (some i) s := by
  rw [MMUSys.getTLBEntry, cassert, if_pos hv, EStateM.run_bind, EStateM.run_pure]
  dsimp only
  rw [EStateM.run_bind, MMUSys.run_onMMU, run_lookupTLB_cached h]
  rfl

theorem RV64SV39MMU.CacheCoherent.shortcuts (h : s.mmu.CacheCoherent) : CacheShortcuts s where
  key := h
  target k k' i hk hk' := (h k i hk).symm.trans (h k' i hk')
  hit env v i hv hi := by
    obtain ⟨ps, hps, hlookup⟩ := cached_eq_some hi
    have hmatch := cacheLookup_matches h hps hlookup
    refine ⟨run_getTLBEntry_cached hv hi, accepted_iff.mpr hmatch, fun r m' hr => ?_⟩
    obtain ⟨-, -, -, hfound⟩ := (scanTLB_all s.mmu).ok hr
    exact (hfound i).mpr hmatch

/-- In every run each key leads to the slot of its page, no slot has two keys, and a lookup
returns only what the scan would have accepted. -/
theorem cache_shortcuts (hs : MMURun (fun _ _ _ => True) s) : CacheShortcuts s := by
  suffices h : s.mmu.CacheCoherent from h.shortcuts
  induction hs with
  | start storage b => exact .construct storage
  | translate hs env v hP hr ih => exact ((getTLBEntry_translated ih env v).ok hr).cached
  | modify hs b ih => exact ih
  | fence hs a asid ih => exact ih.flush a asid

end Runs

/-- A 2 MiB page is filled, and the next translation in it goes through its key. -/
theorem cache_shortcuts_first :
    CacheShortcuts firstFill ∧ firstFill.mmu.cached (addressSpace 1).satp 0x40000123 = some 0 := by
  have h : MMURun (fun _ _ _ => True) firstFill :=
    .translate (.modify (.start default (selfTable 0 0)) _) _ _ trivial run_firstFill
  exact ⟨cache_shortcuts h, by rfl⟩

end MEmu
