import MEmu.Routing
import MEmu.Tlb

/-!
# The TLB is transparent

On RAM, from a new MMU, translations interleaved with changes of memory and with
`sfence.vma` answer as a page-table walk made at that moment would, as long as an
address whose walk has changed is fenced before it is translated again.

A bus of RAM devices is a view of memory (`RAMBus.peek`) that reads do not change.
`pageTableWalk` is `Sv39.walk` over the view, and `getTLBEntry` is a cache of it in
the sense of `Coherence`: an address is fresh when its walk has not changed since
it was last fenced.
-/

namespace MEmu

open Run (Sat Keeps)
open Coherence (Coherent)
open RV64SV39MMU

/-! ## Memory as the walk sees it -/

namespace RAMBus

variable {b b' b'' : RAMBus}

/-- The two buses give every read the same answer. -/
structure SameView (b b' : RAMBus) : Prop where
  obj : b'.obj = b.obj
  route : ∀ addr, (b'.findDevAccordingToAddr addr).1 = (b.findDevAccordingToAddr addr).1

theorem SameView.refl (b : RAMBus) : SameView b b := ⟨rfl, fun _ => rfl⟩

theorem SameView.trans (h : SameView b b') (h' : SameView b' b'') : SameView b b'' :=
  ⟨h'.obj.trans h.obj, fun addr => (h'.route addr).trans (h.route addr)⟩

/-- A lookup caches what it finds, so it does not change what is found. -/
theorem sameView_find (addr : Word) (b : RAMBus) :
    SameView b (b.findDevAccordingToAddr addr).2 := by
  have hscan : ∀ a, (b.findDevAccordingToAddr addr).2.scanDevs a = b.scanDevs a := fun a => by
    rw [MEmuMMIOBus.scanDevs, MEmuMMIOBus.scanDevs, b.findDev_obj, b.findDev_mmioDevs]
  refine ⟨b.findDev_obj addr, fun a => ?_⟩
  rw [MEmuMMIOBus.findDev_fst, MEmuMMIOBus.findDev_cache, hscan]
  split
  · rename_i ha
    rw [ha, MEmuMMIOBus.findDev_fst]
    cases b.devFindCache addr with
    | some h => rfl
    | none => cases b.scanDevs addr <;> rfl
  · rw [MEmuMMIOBus.findDev_fst]

/-- The eight bytes at `addr`, as the walk reads them. -/
def peek (b : RAMBus) (addr : Word) : EStateM Abort Unit Word :=
  match (b.findDevAccordingToAddr addr).1 with
  | none => throw .pteRead
  | some h =>
      if (b.obj h).dev.inBuffer (addr - (b.obj h).devBaseAddr) 8 then
        pure (Bytes.toWord ((b.obj h).dev.bytesAt (addr - (b.obj h).devBaseAddr) 8))
      else throw .outOfBuffer

theorem SameView.peek (h : SameView b b') : b'.peek = b.peek := by
  funext addr
  rw [RAMBus.peek, RAMBus.peek, h.route, h.obj]

theorem read_peek (b : RAMBus) (addr : Word) (buffer : List Byte) :
    Sat b (MMIOBus.paddrReadBuffer addr 8 buffer)
      (fun r b' => SameView b b' ∧ (b.peek addr).run () =
        if r.1 = .ok then .ok (Bytes.toWord r.2) () else .error .pteRead ())
      (fun e _ => (b.peek addr).run () = .error e ()) := by
  have hview := sameView_find addr b
  refine .intro (fun r b' hr => ?_) fun e b' hr => ?_
  all_goals
    rw [run_read] at hr
    rw [RAMBus.peek]
    cases hfind : (b.findDevAccordingToAddr addr).1 with
    | none =>
        rw [hfind] at hr
        cases hr
        try exact ⟨hview, rfl⟩
    | some h =>
        simp only [hfind] at hr ⊢
        split at hr <;> cases hr
        rename_i hin
        first
        | exact ⟨hview, by rw [if_pos hin]; rfl⟩
        | rw [if_neg hin]; rfl

end RAMBus

namespace MMUSys

open RAMBus (SameView)

theorem readEntry_sat (env : MMUEnv) (addr : Word) (s : MMUSys RAMBus) :
    Sat s (readEntry env addr)
      (fun pte s' => (s.sysBus.peek addr).run () = .ok pte () ∧ s'.mmu = s.mmu ∧
        SameView s.sysBus s'.sysBus)
      (fun e _ => (s.sysBus.peek addr).run () = .error e ()) := by
  refine .bind (busCall_sat (fun r b hr => ?_) fun e b hr => (RAMBus.read_peek _ _ _).error hr)
  obtain ⟨hview, hpeek⟩ := (RAMBus.read_peek _ _ _).ok hr
  refine .bind (cassert_sat (fun hok => .pure ⟨?_, rfl, hview⟩) fun hno => ?_)
  · rw [hpeek, if_pos hok]
  · rw [hpeek, if_neg hno]

/-- `pageTableWalk` is the walk over the view of memory. -/
theorem pageTableWalk_sat (env : MMUEnv) (v : Word) (s : MMUSys RAMBus) :
    Sat s (pageTableWalk env v)
      (fun leaf s' => (Sv39.walk s.sysBus.peek (Satp.ppn env.satp <<< 12) v).run () = .ok leaf () ∧
        s'.mmu = s.mmu ∧ SameView s.sysBus s'.sysBus)
      (fun e _ => (Sv39.walk s.sysBus.peek (Satp.ppn env.satp <<< 12) v).run () = .error e ()) := by
  rw [pageTableWalk_eq, Sv39.walk, Sv39.walk, EStateM.run_bind]
  refine .bind ((readEntry_sat env _ s).mono (fun l2_pte s₂ h₂ => ?_) fun e _ h => by rw [h])
  obtain ⟨hread₂, hmmu₂, hview₂⟩ := h₂
  simp only [hread₂]
  refine .ite (fun hleaf => .pure ⟨by rw [if_pos hleaf]; rfl, hmmu₂, hview₂⟩) fun hleaf₂ => ?_
  simp only [if_neg hleaf₂]
  refine .ite (fun hdir => .pure ⟨by rw [if_pos hdir]; rfl, hmmu₂, hview₂⟩) fun hdir₂ => ?_
  simp only [if_neg hdir₂]
  rw [← hview₂.peek, EStateM.run_bind]
  refine .bind ((readEntry_sat env _ s₂).mono (fun l1_pte s₁ h₁ => ?_) fun e _ h => by rw [h])
  obtain ⟨hread₁, hmmu₁, hview₁⟩ := h₁
  have hmmu := hmmu₁.trans hmmu₂
  have hview := hview₂.trans hview₁
  simp only [hread₁]
  refine .ite (fun hleaf => .pure ⟨by rw [if_pos hleaf]; rfl, hmmu, hview⟩) fun hleaf₁ => ?_
  simp only [if_neg hleaf₁]
  refine .ite (fun hdir => .pure ⟨by rw [if_pos hdir]; rfl, hmmu, hview⟩) fun hdir₁ => ?_
  simp only [if_neg hdir₁]
  rw [← hview₁.peek, EStateM.run_bind]
  refine .bind ((readEntry_sat env _ s₁).mono (fun l0_pte s₀ h₀ => ?_) fun e _ h => by rw [h])
  obtain ⟨hread₀, hmmu₀, hview₀⟩ := h₀
  simp only [hread₀]
  refine .ite (fun hleaf => .pure ⟨?_, hmmu₀.trans hmmu, hview.trans hview₀⟩) fun hleaf =>
    .pure ⟨?_, hmmu₀.trans hmmu, hview.trans hview₀⟩
  · rw [if_pos hleaf]
    rfl
  · rw [if_neg hleaf]
    rfl

end MMUSys

/-! ## The walk as a truth about addresses -/

/-- What a walk for `v` made now, on a new MMU, would put into the TLB. -/
def walked (satp : Word) (b : RAMBus) (v : Word) : Except Abort (Option SV39TLBEntry) :=
  (Run.result ((MMUSys.pageTableWalk { (default : MMUEnv) with satp := satp } v).run
    { mmu := default, sysBus := b, busLog := [] })).map
      fun leaf => leaf.map fun leaf => leafEntry satp leaf.1 leaf.2 v

theorem walked_eq (satp : Word) (b : RAMBus) (v : Word) :
    walked satp b v = (Run.result ((Sv39.walk b.peek (Satp.ppn satp <<< 12) v).run ())).map
      fun leaf => leaf.map fun leaf => leafEntry satp leaf.1 leaf.2 v := by
  rw [walked, Sat.result ((MMUSys.pageTableWalk_sat _ v _).mono (fun _ _ h => ?_) fun _ _ h => ?_)]
  · rw [h.1]
    rfl
  · rw [h]
    rfl

theorem walked_congr {satp v : Word} {b b' : RAMBus} (h : RAMBus.SameView b b') :
    walked satp b' v = walked satp b v := by
  rw [walked_eq, walked_eq, h.peek]

theorem walked_ne_tlbUnique (satp : Word) (b : RAMBus) (v : Word) :
    walked satp b v ≠ .error .tlbUnique := by
  rw [walked_eq]
  intro h
  cases hw : (Sv39.walk b.peek (Satp.ppn satp <<< 12) v).run () with
  | ok leaf t =>
      rw [hw] at h
      cases h
  | error e t =>
      rw [hw] at h
      cases h
      obtain ⟨addr, _, hpeek⟩ := Sv39.walk_error hw
      rw [RAMBus.peek] at hpeek
      split at hpeek
      · cases hpeek
      · split at hpeek <;> cases hpeek

/-- The entry that serves `v`, where its walk finds a leaf. -/
def truth (satp : Word) (b : RAMBus) (v : Word) : Option SV39TLBEntry :=
  (walked satp b v).toOption.join

theorem truth_eq_some {satp v : Word} {b : RAMBus} {e : SV39TLBEntry} :
    truth satp b v = some e ↔ walked satp b v = .ok (some e) := by
  rw [truth]
  cases walked satp b v with
  | error a => exact ⟨nofun, nofun⟩
  | ok r =>
      rw [Except.toOption, Option.join_some, Except.ok.injEq]

/-- A leaf entry covers its address. -/
theorem covers_leafEntry {satp pte v : Word} {ps : PageSize} (hps : ps ≠ .invalid) :
    Covers satp (leafEntry satp pte ps v) v :=
  slotMatches_iff.mpr ⟨by simp [asidMatch, leafEntry], hps, rfl⟩

/-- A leaf entry serves every address that it covers. -/
theorem truth_of_covers {satp pte v w : Word} {ps : PageSize} {b : RAMBus}
    (h : (Sv39.walk b.peek (Satp.ppn satp <<< 12) v).run () = .ok (some (pte, ps)) ())
    (hw : Covers satp (leafEntry satp pte ps v) w) :
    truth satp b w = some (leafEntry satp pte ps v) := by
  have hpage : w &&& ps.mask = v &&& ps.mask := (slotMatches_iff.mp hw).2.2
  rw [truth_eq_some, walked_eq, Sv39.walk_of_samePage h hpage.symm]
  simp only [Run.result, Except.map, Option.map_some, leafEntry, hpage]

/-! ## One translation -/

/-- The invariant of the MMU over a run, where `stale` are the addresses whose walk
has changed since they were last fenced. -/
structure TLBInv (satp : Word) (b : RAMBus) (stale : Word → Prop) (m : RV64SV39MMU) : Prop where
  coherent : Coherent (Covers satp) (truth satp b) (fun v => ¬stale v) m.slots
  asid : ∀ i e, m.slots i = some e → e.asid = Satp.asid satp
  cached : m.CacheCoherent

variable {satp : Word} {b b' : RAMBus} {stale : Word → Prop} {m m' : RV64SV39MMU}

theorem TLBInv.congr (h : TLBInv satp b stale m) (hview : RAMBus.SameView b b')
    (htlb : m'.tlb = m.tlb) (hcached : m'.CacheCoherent) : TLBInv satp b' stale m' := by
  have htruth : truth satp b' = truth satp b := by
    funext v
    rw [truth, truth, walked_congr hview]
  refine ⟨?_, ?_, hcached⟩
  · rw [htruth, slots_congr htlb]
    exact h.coherent
  · rw [slots_congr htlb]
    exact h.asid

theorem slots_of_matches {v : Word} {i : TLBIndex} (h : slotMatches satp v (m.tlb i) = true) :
    m.slots i = some (m.tlb i) :=
  slots_eq_some.mpr ⟨(slotMatches_iff.mp h).2.1, rfl⟩

/-- A miss filled from the walk. -/
theorem TLBInv.fill (h : TLBInv satp b stale m) {v pte : Word} {ps : PageSize}
    (hwalk : (Sv39.walk b.peek (Satp.ppn satp <<< 12) v).run () = .ok (some (pte, ps)) ())
    (hmiss : ∀ i, slotMatches satp v (m.tlb i) = false) :
    TLBInv satp b stale (m.writeTLB satp pte ps v).2 := by
  have hps := Sv39.walk_pageSize hwalk
  have hnone : ∀ j e, m.slots j = some e → ¬Covers satp e v := fun j e hj hcov => by
    obtain ⟨-, rfl⟩ := slots_eq_some.mp hj
    rw [Covers, hmiss j] at hcov
    cases hcov
  refine ⟨?_, fun i e hi => ?_, h.cached.writeTLB satp pte ps v⟩
  · rw [slots_writeTLB hps]
    exact h.coherent.fill _ hnone (covers_leafEntry hps) fun w hw => truth_of_covers hwalk hw
  · rw [slots_writeTLB hps] at hi
    by_cases hlast : i = m.lastSwappedIndex
    · rw [hlast, Function.update_self, Option.some.injEq] at hi
      exact hi ▸ rfl
    · rw [Function.update_of_ne hlast] at hi
      exact h.asid i e hi

/-- One translation of a fresh address answers as its walk does. -/
theorem getTLBEntry_answers {s : MMUSys RAMBus} (h : TLBInv satp s.sysBus stale s.mmu) {env : MMUEnv}
    (henv : env.satp = satp) (hmode : Satp.mode satp = 8) {v : Word}
    (hv : VAddr.canonical v = true) (hfresh : ¬stale v) :
    Sat s (MMUSys.getTLBEntry env v)
      (fun r s' => TLBInv satp s'.sysBus stale s'.mmu ∧
        walked satp s.sysBus v = .ok (r.map s'.mmu.tlb))
      (fun e _ => walked satp s.sysBus v = .error e) := by
  subst henv
  refine MMUSys.getTLBEntry_sat (fun hno => absurd hv hno)
    (fun _ => (lookupTLB_sat h.cached).mono (fun _ _ hl => hl) ?_) (fun i m' hl => ?_)
    (fun _ _ hno => absurd hmode hno) fun m' hl _ => ?_
  · rintro e m' ⟨-, i, j, hij, hi, hj⟩
    exact absurd (h.coherent.unique hfresh (slots_of_matches hi) (slots_of_matches hj) hi hj) hij
  · have hcov := hl.hit i rfl
    refine ⟨h.congr (.refl _) hl.tlb hl.cached, ?_⟩
    rw [Option.map_some, hl.tlb]
    exact truth_eq_some.mp (h.coherent.agree v hfresh i _ (slots_of_matches hcov) hcov)
  · refine (MMUSys.pageTableWalk_sat env v _).mono (fun leaf s' hw => ?_) fun e _ hw => ?_
    · obtain ⟨hwalk, hmmu, hview⟩ := hw
      have hs' := h.congr hview ((congrArg RV64SV39MMU.tlb hmmu).trans hl.tlb) (hmmu ▸ hl.cached)
      have hwalked : walked env.satp s.sysBus v = .ok (leaf.map fun leaf =>
          leafEntry env.satp leaf.1 leaf.2 v) := by
        rw [walked_eq, hwalk]
        rfl
      constructor
      · rintro rfl
        exact ⟨hs', hwalked⟩
      · rintro leaf_pte page_size rfl
        refine ⟨hs'.fill (by rw [hview.peek]; exact hwalk) fun i => ?_, ?_⟩
        · rw [hmmu]
          show slotMatches env.satp v (m'.tlb i) = false
          rw [hl.tlb]
          exact hl.miss rfl i
        · rw [hwalked, Option.map_some, Option.map_some, writeTLB_tlb]
          simp only [if_pos]
    · rw [walked_eq, hw]
      rfl

/-! ## Runs -/

/-- The states reached from a new MMU by translations, changes of memory and fences,
with the addresses whose walk has changed since they were last fenced.  Only a
fresh address is translated. -/
inductive TLBRun (satp : Word) : MMUSys RAMBus → (Word → Prop) → Prop where
  | start (storage : RV64SV39MMU) (b : RAMBus) :
      TLBRun satp { mmu := construct storage, sysBus := b, busLog := [] } fun _ => False
  | translate {s s' : MMUSys RAMBus} {stale : Word → Prop} (hs : TLBRun satp s stale)
      {env : MMUEnv} (henv : env.satp = satp) {v : Word} (hv : VAddr.canonical v = true)
      (hfresh : ¬stale v) {r : Option TLBIndex}
      (hr : (MMUSys.getTLBEntry env v).run s = .ok r s') : TLBRun satp s' stale
  | modify {s : MMUSys RAMBus} {stale : Word → Prop} (hs : TLBRun satp s stale) (b : RAMBus) :
      TLBRun satp { s with sysBus := b } fun v => stale v ∨ walked satp b v ≠ walked satp s.sysBus v
  | fence {s : MMUSys RAMBus} {stale : Word → Prop} (hs : TLBRun satp s stale) (a asid : Word)
      (hasid : asid = 0 ∨ asid = (Satp.asid satp).setWidth 64) :
      TLBRun satp { s with mmu := flushTLBSfenceVma a asid s.mmu }
        fun v => stale v ∧ ¬(a = 0 ∨ a = v)

theorem TLBInv.modify {stale : Word → Prop} (h : TLBInv satp b stale m) (b' : RAMBus) :
    TLBInv satp b' (fun v => stale v ∨ walked satp b' v ≠ walked satp b v) m := by
  refine ⟨h.coherent.modify fun v hv => ?_, h.asid, h.cached⟩
  rw [not_or, not_not] at hv
  exact ⟨hv.1, by rw [truth, truth, hv.2]⟩

/-- A fence drops every entry that covers the address fenced. -/
theorem TLBInv.fence (h : TLBInv satp b stale m) (a : Word) {asid : Word}
    (hasid : asid = 0 ∨ asid = (Satp.asid satp).setWidth 64) :
    TLBInv satp b (fun v => stale v ∧ ¬(a = 0 ∨ a = v)) (m.flushTLBSfenceVma a asid) := by
  refine ⟨h.coherent.invalidate (fun i e hi => (slots_flush hi).1) fun v hv => ?_,
    fun i e hi => h.asid i e (slots_flush hi).1, h.cached.flush a asid⟩
  rw [not_and, not_not] at hv
  by_cases hstale : stale v
  · refine .inr fun i e hi hcov => ?_
    obtain ⟨hslot, hkept⟩ := slots_flush hi
    have hhit : e.asid.setWidth 64 = asid ∨ asid = 0 := by
      rw [h.asid i e hslot]
      exact hasid.symm.imp_left Eq.symm
    obtain ⟨ha, hpage⟩ := hkept hhit
    obtain rfl := (hv hstale).resolve_left ha
    refine hpage ?_
    rw [← (slotMatches_iff.mp hcov).2.2, BitVec.and_assoc, BitVec.and_self]
  · exact .inl hstale

theorem TLBRun.inv {s : MMUSys RAMBus} (hmode : Satp.mode satp = 8) (hs : TLBRun satp s stale) :
    TLBInv satp s.sysBus stale s.mmu := by
  induction hs with
  | start storage b =>
      refine ⟨?_, ?_, .construct storage⟩
      · rw [slots_construct]
        exact .empty
      · rw [slots_construct]
        exact nofun
  | translate hs henv hv hfresh hr ih => exact ((getTLBEntry_answers ih henv hmode hv hfresh).ok hr).1
  | modify hs b ih => exact ih.modify b
  | fence hs a asid hasid ih => exact ih.fence a hasid

/-- The answer of `getTLBEntry`: the entry, no entry, or the abort. -/
def translated {β : Type} [MMIOBus β] (env : MMUEnv) (s : MMUSys β) (v : Word) :
    Except Abort (Option SV39TLBEntry) :=
  match (MMUSys.getTLBEntry env v).run s with
  | .ok r s' => .ok (r.map s'.mmu.tlb)
  | .error e _ => .error e

/-- In every run each translation answers as a walk made at that moment would, and
the assertion that at most one slot matches holds. -/
theorem tlb_transparent {s : MMUSys RAMBus} (hmode : Satp.mode satp = 8)
    (hs : TLBRun satp s stale) {env : MMUEnv} (henv : env.satp = satp) {v : Word}
    (hv : VAddr.canonical v = true) (hfresh : ¬stale v) :
    translated env s v = walked satp s.sysBus v ∧ translated env s v ≠ .error .tlbUnique := by
  have heq : translated env s v = walked satp s.sysBus v := by
    have h := getTLBEntry_answers (hs.inv hmode) henv hmode hv hfresh
    rw [translated]
    split
    · exact (h.ok ‹_›).2.symm
    · exact (h.error ‹_›).symm
  exact ⟨heq, heq ▸ walked_ne_tlbUnique satp s.sysBus v⟩

/-- Sv39 with the root page table at address 0. -/
def rootAtZero : MMUEnv := { (default : MMUEnv) with satp := 8 <<< 60 }

/-- A new MMU on a bus whose root table maps the first GiB, writable. -/
def writableGiB : MMUSys RAMBus :=
  ⟨construct default, MMIOMem.busOfBytes [0xcf, 0, 0, 0, 0, 0, 0, 0], []⟩

/-- The page is cached, made read-only, and fenced. -/
theorem tlb_transparent_readOnly :
    ∃ s stale, TLBRun rootAtZero.satp s stale ∧
      translated rootAtZero s 0x123 = walked rootAtZero.satp s.sysBus 0x123 ∧
      (truth rootAtZero.satp s.sysBus 0x123).map SV39TLBEntry.W = some false := by
  have hr : (MMUSys.getTLBEntry rootAtZero 0x123).run writableGiB
      = .ok (some 0) (Run.final ((MMUSys.getTLBEntry rootAtZero 0x123).run writableGiB)) := by
    rfl
  have h₀ : TLBRun rootAtZero.satp writableGiB _ := .start _ _
  have h₁ := h₀.translate rfl (by decide) id hr
  have h₂ := (h₁.modify (MMIOMem.busOfBytes [0xcb, 0, 0, 0, 0, 0, 0, 0])).fence 0 0 (.inl rfl)
  exact ⟨_, _, h₂, (tlb_transparent (by decide) h₂ rfl (by decide) fun h => h.2 (.inl rfl)).1, rfl⟩

end MEmu
