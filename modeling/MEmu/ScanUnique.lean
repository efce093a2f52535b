import MEmu.Translation

/-!
# Slots that match the same address

The scan of `getTLBEntry` asserts that at most one slot matches.  Nothing that fills a slot
looks at the others: the page tables may have changed since, or map a page globally in one
address space and not in another, and then two slots match.  The hash cache answers most of
these lookups before the scan, and hides what `Conflict` says of the two slots.
-/

namespace MEmu

open Run (Sat)
open Coherence (Apart)
open RV64SV39MMU

/-! ## Conflicts -/

/-- Two valid entries share an address space, and their pages overlap. -/
structure Conflict (e e' : SV39TLBEntry) : Prop where
  valid : e.pagesize ≠ .invalid ∧ e'.pagesize ≠ .invalid
  space : e.asid = e'.asid ∨ e.G = true ∨ e'.G = true
  page : e.vpa &&& (e.pagesize.mask &&& e'.pagesize.mask)
    = e'.vpa &&& (e.pagesize.mask &&& e'.pagesize.mask)

theorem Conflict.symm (e e' : SV39TLBEntry) (h : Conflict e e') : Conflict e' e := by
  refine ⟨h.valid.symm, ?_, ?_⟩
  · obtain h | h | h := h.space
    · exact .inl h.symm
    · exact .inr (.inr h)
    · exact .inr (.inl h)
  · rw [BitVec.and_comm e'.pagesize.mask]
    exact h.page.symm

/-- Entries that match the same address are in conflict. -/
theorem Conflict.of_matches {satp v : Word} {e e' : SV39TLBEntry}
    (h : slotMatches satp v e = true) (h' : slotMatches satp v e' = true) : Conflict e e' := by
  obtain ⟨hasid, hvalid, hpage⟩ := slotMatches_iff.mp h
  obtain ⟨hasid', hvalid', hpage'⟩ := slotMatches_iff.mp h'
  rw [asidMatch, Bool.or_eq_true, beq_iff_eq] at hasid hasid'
  refine ⟨⟨hvalid, hvalid'⟩, ?_, ?_⟩
  · obtain hasid | hG := hasid
    · obtain hasid' | hG' := hasid'
      · exact .inl (hasid.trans hasid'.symm)
      · exact .inr (.inr hG')
    · exact .inr (.inl hG)
  · calc e.vpa &&& (e.pagesize.mask &&& e'.pagesize.mask)
        = v &&& (e.pagesize.mask &&& e'.pagesize.mask) := by
          rw [← hpage, BitVec.and_assoc, ← BitVec.and_assoc e.pagesize.mask, BitVec.and_self]
      _ = e'.vpa &&& (e.pagesize.mask &&& e'.pagesize.mask) := by
          rw [← hpage', BitVec.and_comm e.pagesize.mask, BitVec.and_assoc,
            ← BitVec.and_assoc e'.pagesize.mask, BitVec.and_self]

/-! ## Runs -/

section Runs

variable {β : Type} [MMIOBus β]

/-- A walk for `v` on the bus `b` finds this leaf. -/
def WalksTo (env : MMUEnv) (v : Word) (b : β) (leaf_pte : Word) (page_size : PageSize) : Prop :=
  ∃ s s', s.sysBus = b ∧
    (MMUSys.pageTableWalk env v).run s = .ok (some (leaf_pte, page_size)) s'

/-- Where a translation of `v` would fill a slot, the new entry is in conflict with no slot
that stays. -/
def ClearFill (env : MMUEnv) (v : Word) (s : MMUSys β) : Prop :=
  Satp.mode env.satp = 8 → (∀ i, slotMatches env.satp v (s.mmu.tlb i) = false) →
    ∀ leaf_pte page_size, WalksTo env v s.sysBus leaf_pte page_size →
      ∀ j, j ≠ s.mmu.lastSwappedIndex →
        ¬Conflict (leafEntry env.satp leaf_pte page_size v) (s.mmu.tlb j)

/-- The states reached from a new MMU by translations in any mode and address space, changes of
memory and fences, where each translation meets `P`. -/
inductive MMURun (P : MMUEnv → Word → MMUSys β → Prop) : MMUSys β → Prop where
  | start (storage : RV64SV39MMU) (b : β) :
      MMURun P { mmu := construct storage, sysBus := b, busLog := [] }
  | translate {s s' : MMUSys β} (hs : MMURun P s) (env : MMUEnv) (v : Word) (hP : P env v s)
      {r : Option TLBIndex} (hr : (MMUSys.getTLBEntry env v).run s = .ok r s') : MMURun P s'
  | modify {s : MMUSys β} (hs : MMURun P s) (b : β) : MMURun P { s with sysBus := b }
  | fence {s : MMUSys β} (hs : MMURun P s) (a asid : Word) :
      MMURun P { s with mmu := flushTLBSfenceVma a asid s.mmu }

/-- No cache lookup for `v` hits, so that the slots are scanned. -/
def Scans (satp v : Word) (m : RV64SV39MMU) : Prop :=
  VAddr.canonical v = true ∧ m.cacheLookup satp v .size4K = none ∧
    m.cacheLookup satp v .size2M = none ∧ m.cacheLookup satp v .size1G = none

/-- Whenever the slots are scanned, at most one matches. -/
def ScanUnique (m : RV64SV39MMU) : Prop :=
  ∀ satp v, Scans satp v m → ∀ i j, slotMatches satp v (m.tlb i) = true →
    slotMatches satp v (m.tlb j) = true → i = j

/-- The invariant of the MMU over a run of clear fills. -/
structure SlotsApart (m : RV64SV39MMU) : Prop where
  apart : Apart Conflict m.slots
  cached : m.CacheCoherent

/-- Where no two slots are in conflict the scan matches one at most. -/
theorem SlotsApart.scanUnique {m : RV64SV39MMU} (h : SlotsApart m) : ScanUnique m := by
  intro satp v _ i j hi hj
  have hslot {i : TLBIndex} (hi : slotMatches satp v (m.tlb i) = true) :
      m.slots i = some (m.tlb i) := slots_eq_some.mpr ⟨(slotMatches_iff.mp hi).2.1, rfl⟩
  exact h.apart i j _ _ (hslot hi) (hslot hj) (.of_matches hi hj)

/-- What a translation from `m` leaves of the MMU: the slots stay, or a miss fills one from the
leaf that the walk finds. -/
inductive Translated (env : MMUEnv) (v : Word) (b : β) (m : RV64SV39MMU) : RV64SV39MMU → Prop where
  | kept {m' : RV64SV39MMU} {r : Option TLBIndex} (hl : Looked env.satp v m r m') :
      Translated env v b m m'
  | filled {m' : RV64SV39MMU} (hl : Looked env.satp v m none m') (hmode : Satp.mode env.satp = 8)
      {leaf_pte : Word} {page_size : PageSize} (hps : page_size ≠ .invalid)
      (hwalk : WalksTo env v b leaf_pte page_size) :
      Translated env v b m (m'.writeTLB env.satp leaf_pte page_size v).2

/-- A translation leaves the slots, or fills one after a walk. -/
theorem getTLBEntry_translated {s : MMUSys β} (h : s.mmu.CacheCoherent) (env : MMUEnv) (v : Word) :
    Sat s (MMUSys.getTLBEntry env v) (fun _ s' => Translated env v s.sysBus s.mmu s'.mmu)
      (fun _ _ => True) := by
  refine MMUSys.getTLBEntry_sat (fun _ => trivial)
    (fun _ => (lookupTLB_sat h).mono (fun _ _ hl => hl) fun _ _ _ => trivial)
    (fun i m' hl => .kept hl) (fun m' hl _ => .kept hl)
    fun m' hl hmode => .intro (fun leaf s₁ hwalk => ?_) fun _ _ _ => trivial
  have hmmu : s₁.mmu = m' := ((MMUSys.pageTableWalk_walks env v _).ok hwalk).mmu
  refine ⟨fun _ => hmmu ▸ .kept hl, ?_⟩
  rintro leaf_pte page_size rfl
  rw [hmmu]
  exact .filled hl hmode (MMUSys.pageTableWalk_pageSize hwalk)
    ⟨{ s with mmu := m' }, s₁, rfl, hwalk⟩

theorem Translated.cached {env : MMUEnv} {v : Word} {b : β} {m m' : RV64SV39MMU}
    (h : Translated env v b m m') : m'.CacheCoherent := by
  cases h with
  | kept hl => exact hl.cached
  | filled hl _ _ _ => exact hl.cached.writeTLB _ _ _ _

/-- A translation whose fill is clear keeps the slots apart. -/
theorem SlotsApart.translate {s s' : MMUSys β} (h : SlotsApart s.mmu) {env : MMUEnv} {v : Word}
    (hclear : ClearFill env v s) {r : Option TLBIndex}
    (hr : (MMUSys.getTLBEntry env v).run s = .ok r s') : SlotsApart s'.mmu := by
  have htrans := (getTLBEntry_translated h.cached env v).ok hr
  refine ⟨?_, htrans.cached⟩
  generalize s'.mmu = m' at htrans ⊢
  cases htrans with
  | kept hl =>
      rw [slots_congr hl.tlb]
      exact h.apart
  | filled hl hmode hps hwalk =>
      rw [slots_writeTLB hps, slots_congr hl.tlb, hl.swap]
      refine h.apart.fill Conflict.symm fun j e' hj hslot => ?_
      obtain ⟨-, rfl⟩ := slots_eq_some.mp hslot
      exact hclear hmode (hl.miss rfl) _ _ hwalk j hj

/-- In a run of clear fills at most one slot ever matches. -/
theorem scan_unique {s : MMUSys β} (hs : MMURun ClearFill s) : ScanUnique s.mmu := by
  suffices h : SlotsApart s.mmu from h.scanUnique
  induction hs with
  | start storage b =>
      refine ⟨?_, .construct storage⟩
      rw [slots_construct]
      exact .empty
  | translate hs env v hP hr ih => exact ih.translate hP hr
  | modify hs b ih => exact ih
  | fence hs a asid ih =>
      exact ⟨ih.apart.invalidate fun i e hi => (slots_flush hi).1, ih.cached.flush a asid⟩

end Runs

/-! ## A run that is not clear -/

/-- Sv39 in the address space `asid`, with the root page table at address 0. -/
def addressSpace (asid : BitVec 16) : MMUEnv :=
  { (default : MMUEnv) with satp := 8 <<< 60 ||| asid.setWidth 64 <<< 44 }

/-- A table whose entry 0 is a leaf, and whose entry 1 is given.  As a root it maps the second
GiB through itself where entry 1 points to it. -/
def selfTable (leaf entry : Byte) : MEmuMMIOBus MMIOMem :=
  MMIOMem.busOfBytes [leaf, 0, 0, 0, 0, 0, 0, 0, entry, 0, 0, 0, 0, 0, 0, 0]

/-- A translation made in an address space after a change of memory. -/
def filled (asid : BitVec 16) (v : Word) (b : MEmuMMIOBus MMIOMem)
    (s : MMUSys (MEmuMMIOBus MMIOMem)) : MMUSys (MEmuMMIOBus MMIOMem) :=
  Run.final ((MMUSys.getTLBEntry (addressSpace asid) v).run { s with sysBus := b })

def newMMU : MMUSys (MEmuMMIOBus MMIOMem) := ⟨construct default, selfTable 0 0, []⟩

/-- Three address spaces map an address: by a 2 MiB page, by a global 2 MiB page, and by the
1 GiB page that it begins. -/
def firstFill : MMUSys (MEmuMMIOBus MMIOMem) :=
  filled 1 0x40000000 (selfTable 0x43 0x01) newMMU
def secondFill : MMUSys (MEmuMMIOBus MMIOMem) :=
  filled 2 0x40000000 (selfTable 0x63 0x01) firstFill
def thirdFill : MMUSys (MEmuMMIOBus MMIOMem) :=
  filled 5 0x40200000 (selfTable 0x43 0x43) secondFill

theorem run_firstFill :
    (MMUSys.getTLBEntry (addressSpace 1) 0x40000000).run
      { newMMU with sysBus := selfTable 0x43 0x01 } = .ok (some 0) firstFill := by
  rfl

/-- The walk for the page after the first one, on the same tables. -/
theorem walk_nextPage {s s' : MMUSys (MEmuMMIOBus MMIOMem)} (hbus : s.sysBus = firstFill.sysBus)
    {leaf_pte : Word} {page_size : PageSize}
    (hr : (MMUSys.pageTableWalk (addressSpace 1) 0x40200000).run s
      = .ok (some (leaf_pte, page_size)) s') : leaf_pte = 0x43 ∧ page_size = .size4K := by
  have hwalk := ((MMUSys.pageTableWalk_sat _ _ s).ok hr).1
  rw [hbus] at hwalk
  have hleaf : (Sv39.walk (RAMBus.peek firstFill.sysBus) (Satp.ppn (addressSpace 1).satp <<< 12)
      0x40200000).run () = .ok (some (0x43, .size4K)) () := by rfl
  cases hwalk.symm.trans hleaf
  exact ⟨rfl, rfl⟩

/-- A fill after a fence of another address space. -/
def fencedFill : MMUSys (MEmuMMIOBus MMIOMem) :=
  filled 1 0x40200000 firstFill.sysBus
    { firstFill with mmu := flushTLBSfenceVma 0 2 firstFill.mmu }

/-- Two pages of one address space, side by side. -/
theorem scan_unique_fenced :
    MMURun ClearFill fencedFill ∧ (fencedFill.mmu.tlb 0).pagesize = .size2M ∧
      (fencedFill.mmu.tlb 1).pagesize = .size4K ∧ ScanUnique fencedFill.mmu := by
  have hclear : ClearFill (addressSpace 1) 0x40000000
      { newMMU with sysBus := selfTable 0x43 0x01 } :=
    fun _ _ _ _ _ _ _ h => h.valid.2 rfl
  have hfirst : MMURun ClearFill firstFill :=
    .translate (.modify (.start default (selfTable 0 0)) _) _ _ hclear run_firstFill
  have hempty : ∀ j : TLBIndex, j ≠ 0 →
      ((flushTLBSfenceVma 0 2 firstFill.mmu).tlb j).pagesize = .invalid := by decide +kernel
  have hclear' : ClearFill (addressSpace 1) 0x40200000
      { firstFill with mmu := flushTLBSfenceVma 0 2 firstFill.mmu } := by
    rintro - - leaf_pte page_size ⟨s, s', hbus, hwalk⟩ j - hconflict
    obtain ⟨rfl, rfl⟩ := walk_nextPage hbus hwalk
    by_cases hj : j = 0
    · subst hj
      exact absurd hconflict.page (by decide)
    · exact hconflict.valid.2 (hempty j hj)
  have hrun : (MMUSys.getTLBEntry (addressSpace 1) 0x40200000).run
      { firstFill with mmu := flushTLBSfenceVma 0 2 firstFill.mmu }
        = .ok (some 1) fencedFill := by rfl
  have h : MMURun ClearFill fencedFill := .translate (hfirst.fence 0 2) _ _ hclear' hrun
  exact ⟨h, by rfl, by rfl, scan_unique h⟩

/-- The key of the address leads to the third slot, which is of another address space, and the
scan for the first one finds the first two. -/
theorem scan_finds_two :
    MMURun (fun _ _ _ => True) thirdFill ∧ ¬ScanUnique thirdFill.mmu := by
  have h₂ : (MMUSys.getTLBEntry (addressSpace 2) 0x40000000).run
      { firstFill with sysBus := selfTable 0x63 0x01 } = .ok (some 1) secondFill := by
    rfl
  have h₃ : (MMUSys.getTLBEntry (addressSpace 5) 0x40200000).run
      { secondFill with sysBus := selfTable 0x43 0x43 } = .ok (some 2) thirdFill := by
    rfl
  have hfirst : MMURun (fun _ _ _ => True) firstFill :=
    .translate (.modify (.start default (selfTable 0 0)) _) _ _ trivial run_firstFill
  have hsecond : MMURun (fun _ _ _ => True) secondFill :=
    .translate (hfirst.modify _) _ _ trivial h₂
  refine ⟨.translate (hsecond.modify _) _ _ trivial h₃, fun h => ?_⟩
  have hscans : Scans (addressSpace 1).satp 0x40000000 thirdFill.mmu :=
    ⟨by decide, by rfl, by rfl, by rfl⟩
  exact absurd (h _ _ hscans 0 1 (by rfl) (by rfl)) (by decide)

end MEmu
