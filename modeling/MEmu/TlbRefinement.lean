import MEmu.Confinement
import MEmu.DebugView
import MEmu.MemoryAgreement

/-!
# Programs do not see the TLB

A machine whose TLB has been filled by what ran before, and the same machine whose TLB is
emptied before every step, run a program alike, as long as an address whose walk has changed
is fenced before it is used again.  Between two steps the interrupt lines change, and other
masters of the bus write to memory, page tables included.

The two machines share the view of memory and the reservation, and both TLBs are coherent with
the page tables, which is all that `getTLBEntry_answers` asks for.
-/

namespace MEmu

open Machine (onCore)
open Run (Sat Lock)
open Coherence (Coherent)
open RV64SV39MMU
open RAMBus (SameView)

/-! ## Two coherent TLBs -/

/-- One view of memory, one reservation, and two TLBs that answer truly for what is not
stale. -/
structure SameTruth (satp : Word) (stale : Word → Prop) (s s' : MMUSys RAMBus) : Prop where
  linked : Linked SameView s s'
  left : TLBInv satp s.sysBus stale s.mmu
  right : TLBInv satp s'.sysBus stale s'.mmu

section Truth

variable {satp : Word} {stale stale' : Word → Prop} {b b' : RAMBus} {m m' : RV64SV39MMU}
  {s s' t t' : MMUSys RAMBus}

/-- Memory changes.  What is not stale afterwards was not before, and its walk is the same. -/
theorem TLBInv.change (h : TLBInv satp b stale m) (htrans : m'.translation = m.translation)
    (hwalk : ∀ v, ¬stale' v → ¬stale v ∧ walked satp b' v = walked satp b v) :
    TLBInv satp b' stale' m' := by
  simp only [translation, Prod.mk.injEq] at htrans
  obtain ⟨htlb, hcache, -⟩ := htrans
  refine ⟨?_, ?_, ?_⟩
  · rw [slots_congr htlb]
    refine h.coherent.modify fun v hv => ⟨(hwalk v hv).1, ?_⟩
    rw [truth, truth, (hwalk v hv).2]
  · rw [slots_congr htlb]
    exact h.asid
  · intro k i hk
    rw [htlb]
    exact h.cached k i (hcache ▸ hk)

/-- A fence, of whatever address space. -/
theorem TLBInv.sfence (h : TLBInv satp b stale m) (a asid : Word) :
    TLBInv satp b (fun v => stale v ∧
      ¬((asid = 0 ∨ asid = (Satp.asid satp).setWidth 64) ∧ (a = 0 ∨ a = v)))
      (m.flushTLBSfenceVma a asid) := by
  by_cases hasid : asid = 0 ∨ asid = (Satp.asid satp).setWidth 64
  · refine (h.fence a hasid).change rfl fun v hv => ⟨fun hstale => hv ⟨hstale.1, ?_⟩, rfl⟩
    exact fun hfenced => hstale.2 hfenced.2
  · refine ⟨h.coherent.invalidate (fun i e hi => (slots_flush hi).1) fun v hv => .inl ?_,
      fun i e hi => h.asid i e (slots_flush hi).1, h.cached.flush a asid⟩
    exact fun hstale => hv ⟨hstale, fun hfenced => hasid hfenced.1⟩

/-- What a translation leaves: one view of memory, the reservation, and a coherent TLB. -/
structure LookedUp (satp : Word) (stale : Word → Prop) (s t : MMUSys RAMBus) : Prop where
  inv : TLBInv satp t.sysBus stale t.mmu
  view : SameView s.sysBus t.sysBus
  reservation : t.mmu.reservation = s.mmu.reservation

/-- Two coherent TLBs translate an address alike where the walks for it are alike. -/
theorem TLBInv.lock (hl : TLBInv satp s.sysBus stale s.mmu) (hr : TLBInv satp s'.sysBus stale s'.mmu)
    {env : MMUEnv} (henv : env.satp = satp) (hmode : Satp.mode satp = 8) {v : Word}
    (hfresh : ¬stale v) (hwalk : walked satp s'.sysBus v = walked satp s.sysBus v) :
    Lock s s' (MMUSys.getTLBEntry env v) (MMUSys.getTLBEntry env v)
      fun r r' t t' => r.map t.mmu.tlb = r'.map t'.mmu.tlb ∧
        walked satp s.sysBus v = .ok (r.map t.mmu.tlb) ∧
        LookedUp satp stale s t ∧ LookedUp satp stale s' t' := by
  by_cases hv : VAddr.canonical v = true
  · have hleft := (getTLBEntry_answers hl henv hmode hv hfresh).and
      (MMUSys.getTLBEntry_quiet env v s)
    have hright := (getTLBEntry_answers hr henv hmode hv hfresh).and
      (MMUSys.getTLBEntry_quiet env v s')
    refine .of_sat hleft hright ?_ ?_ ?_ ?_
    · rintro r t r' t' ⟨⟨hinv, hr⟩, hq⟩ ⟨⟨hinv', hr'⟩, hq'⟩
      have hview := RAMBus.sameView_of_reads hq.reads
      have hview' := RAMBus.sameView_of_reads hq'.reads
      exact ⟨Except.ok.inj (hr.symm.trans (hwalk.symm.trans hr')), hr,
        ⟨hinv, hview, hq.reservation⟩, ⟨hinv', hview', hq'.reservation⟩⟩
    · rintro r t e t' ⟨⟨-, hr⟩, -⟩ ⟨he, -⟩
      cases hr.symm.trans (hwalk.symm.trans he)
    · rintro e t r' t' ⟨he, -⟩ ⟨⟨-, hr'⟩, -⟩
      cases he.symm.trans (hwalk.symm.trans hr')
    · rintro e t e' t' ⟨he, -⟩ ⟨he', -⟩
      exact Except.error.inj (he.symm.trans (hwalk.symm.trans he'))
  · exact .bind (cassert_lock fun hc => absurd hc hv)

/-- An address that is not stale is translated alike. -/
theorem getTLBEntry_lock (h : SameTruth satp stale s s') {env : MMUEnv} (henv : env.satp = satp)
    (hmode : Satp.mode satp = 8) {v : Word} (hfresh : ¬stale v) :
    Lock s s' (MMUSys.getTLBEntry env v) (MMUSys.getTLBEntry env v)
      fun r r' t t' => r.map t.mmu.tlb = r'.map t'.mmu.tlb ∧ SameTruth satp stale t t' ∧
        SameView s.sysBus t.sysBus := by
  refine (h.left.lock h.right henv hmode hfresh (walked_congr h.linked.bus)).mono ?_
  rintro r r' t t' ⟨heq, -, ht, ht'⟩
  refine ⟨heq, ⟨⟨(ht.view.symm.trans h.linked.bus).trans ht'.view, ?_⟩, ht.inv, ht'.inv⟩, ht.view⟩
  rw [ht.reservation, ht'.reservation, h.linked.reservation]

/-- The paged path, to one physical address or one fault. -/
theorem pagedAddr_lock {φ : Type} (h : SameTruth satp stale s s') {env : MMUEnv}
    (henv : env.satp = satp) (hmode : Satp.mode satp = 8) {begin_addr : Word}
    (hfresh : ¬stale begin_addr) (size : Word) (misalign pgfault : φ)
    (check : SV39TLBEntry → Option φ) :
    Lock s s' (MMUSys.pagedAddr env begin_addr size misalign pgfault check)
      (MMUSys.pagedAddr env begin_addr size misalign pgfault check)
      fun r r' t t' => r = r' ∧ SameTruth satp stale t t' ∧ SameView s.sysBus t.sysBus := by
  refine (MMUSys.pagedAddr_lock (E := fun _ => True) (R := fun t t' =>
    SameTruth satp stale t t' ∧ SameView s.sysBus t.sysBus) size misalign pgfault check
    ⟨h, .refl _⟩ ?_).mono fun r r' t t' hr => ⟨hr.1, hr.2.1⟩
  exact (getTLBEntry_lock h henv hmode hfresh).mono fun r r' t t' hr =>
    ⟨hr.1, hr.2, fun _ _ => trivial⟩

end Truth

/-! ## One step -/

namespace Machine

/-- The step translates `v`. -/
def Uses {β : Type} [MMIOBus β] (m : Machine β) (v : Word) : Prop :=
  (m.Fetches ∧ m.begun.mmuEnv.bareFetch = false ∧
      ∃ piece ∈ MMUSys.fetchPieces m.begun.currentProgramCounter 4, piece.1 = v) ∨
    (m.begun.mmuEnv.bareData = false ∧ ∃ op rd, m.memOp = some (op, rd) ∧ op.addr = v)

/-- The step fences `v` in the address space of `satp`. -/
def Fences {β : Type} [MMIOBus β] (satp : Word) (m : Machine β) (v : Word) : Prop :=
  ∃ a asid, m.fence = some (a, asid) ∧ (asid = 0 ∨ asid = (Satp.asid satp).setWidth 64) ∧
    (a = 0 ∨ a = v)

/-- What is stale after a step that leaves memory as it is on `b`. -/
def staleAfter (satp : Word) (m : Machine RAMBus) (stale : Word → Prop) (b : RAMBus) (v : Word) :
    Prop :=
  (stale v ∧ ¬m.Fences satp v) ∨ walked satp b v ≠ walked satp m.mem.sysBus v

end Machine

section Step

variable {satp : Word} {stale : Word → Prop} {m m' : Machine RAMBus}

/-- The memories during a step from `m`. -/
def DuringStep (satp : Word) (stale : Word → Prop) (m : Machine RAMBus) (s s' : MMUSys RAMBus) :
    Prop :=
  SameTruth satp stale s s' ∧ SameView m.mem.sysBus s.sysBus

/-- The memories after it. -/
def AfterStep (satp : Word) (stale : Word → Prop) (m : Machine RAMBus) (s s' : MMUSys RAMBus) :
    Prop :=
  SameTruth satp (m.staleAfter satp stale s.sysBus) s s'

theorem DuringStep.after {s s' : MMUSys RAMBus} (h : DuringStep satp stale m s s')
    (hfence : m.fence = none) : AfterStep satp stale m s s' := by
  obtain ⟨htruth, hview⟩ := h
  have hstale (v : Word) (hv : ¬m.staleAfter satp stale s.sysBus v) : ¬stale v := by
    rintro hstale
    refine hv (.inl ⟨hstale, ?_⟩)
    rintro ⟨a, asid, hf, -⟩
    rw [hfence] at hf
    cases hf
  exact ⟨htruth.linked, htruth.left.change rfl fun v hv => ⟨hstale v hv, rfl⟩,
    htruth.right.change rfl fun v hv => ⟨hstale v hv, rfl⟩⟩

/-- A fence frees what it fences. -/
theorem DuringStep.fence {s s' : MMUSys RAMBus} (h : DuringStep satp stale m s s')
    {a asid : Word} (hfence : m.fence = some (a, asid)) :
    AfterStep satp stale m { s with mmu := s.mmu.flushTLBSfenceVma a asid }
      { s' with mmu := s'.mmu.flushTLBSfenceVma a asid } := by
  obtain ⟨htruth, hview⟩ := h
  have hstale (v : Word) (hv : ¬m.staleAfter satp stale s.sysBus v) :
      ¬(stale v ∧ ¬((asid = 0 ∨ asid = (Satp.asid satp).setWidth 64) ∧ (a = 0 ∨ a = v))) := by
    rintro ⟨hstale, hnot⟩
    refine hv (.inl ⟨hstale, ?_⟩)
    rintro ⟨a', asid', hf, hasid, ha⟩
    cases hf.symm.trans hfence
    exact hnot ⟨hasid, ha⟩
  exact ⟨⟨htruth.linked.bus, htruth.linked.reservation⟩,
    (htruth.left.sfence a asid).change rfl fun v hv => ⟨hstale v hv, rfl⟩,
    (htruth.right.sfence a asid).change rfl fun v hv => ⟨hstale v hv, rfl⟩⟩

/-- An access at a physical address. -/
theorem DuringStep.access {s s' : MMUSys RAMBus} (h : DuringStep satp stale m s s')
    (hfence : m.fence = none) (env : MMUEnv) (bare : Bool) (paddr : Word) (op : MemOp) :
    Lock s s' (op.access env bare paddr) (op.access env bare paddr)
      fun r r' t t' => r = r' ∧ AfterStep satp stale m t t' := by
  obtain ⟨htruth, hview⟩ := h
  refine ((op.access_lock env bare paddr (fun _ => readsAlike_sameView _ _)
    (fun _ => writesAlike_sameView _ _) htruth.linked).with
      (op.access_translation env bare paddr s) (op.access_translation env bare paddr s')).mono ?_
  rintro r r' t t' ⟨⟨hr, hlinked⟩, ht, ht'⟩
  have hstale (v : Word) (hv : ¬m.staleAfter satp stale t.sysBus v) :
      ¬stale v ∧ walked satp t.sysBus v = walked satp m.mem.sysBus v := by
    refine ⟨fun hstale => hv (.inl ⟨hstale, ?_⟩), not_not.mp fun hne => hv (.inr hne)⟩
    rintro ⟨a, asid, hf, -⟩
    rw [hfence] at hf
    cases hf
  refine ⟨hr, hlinked, htruth.left.change ht fun v hv => ⟨(hstale v hv).1, ?_⟩,
    htruth.right.change ht' fun v hv => ⟨(hstale v hv).1, ?_⟩⟩
  · rw [(hstale v hv).2, walked_congr hview]
  · rw [walked_congr hlinked.bus, (hstale v hv).2, walked_congr htruth.linked.bus,
      walked_congr hview]

/-- An instruction that accesses memory is no fence. -/
theorem fence_of_memOp {p : MemOp × BitVec 5} (h : m.memOp = some p) : m.fence = none := by
  unfold Machine.memOp at h
  unfold Machine.fence
  cases hr : fetchInst.run m with
  | error e m₁ => rfl
  | ok r m₁ =>
      cases r with
      | none => rfl
      | some inst =>
          rw [hr] at h
          exact congrArg fenceOf (action_of_memOp h)

/-- One piece of the fetch. -/
theorem DuringStep.fetch {s s' : MMUSys RAMBus} (h : DuringStep satp stale m s s')
    (hmode : Satp.mode satp = 8) {env : MMUEnv} (henv : env.satp = satp) {begin_addr : Word}
    (hfresh : env.bareFetch = false → ¬stale begin_addr) (size : Word) (buffer : List Byte) :
    Lock s s' (MMUSys.instFetchWhole env begin_addr size buffer)
      (MMUSys.instFetchWhole env begin_addr size buffer)
      fun r r' t t' => r = r' ∧ DuringStep satp stale m t t' := by
  refine MMUSys.instFetchWhole_lock env begin_addr size buffer (P := fun _ => True) h
    (fun _ => trivial) (fun hb => ?_) fun paddr t t' _ ht => ?_
  · refine (pagedAddr_lock h.1 henv hmode (hfresh hb) size _ _ _).mono ?_
    rintro r r' t t' ⟨hr, ht, hview⟩
    exact ⟨hr, ⟨ht, h.2.trans hview⟩, fun _ _ => trivial⟩
  · obtain ⟨htruth, hview⟩ := ht
    refine ((busRead_lock (readsAlike_sameView paddr size) _ _ htruth.linked.bus).with
      (busRead_quiet rfl paddr size buffer t) (busRead_quiet rfl paddr size buffer t')).mono ?_
    rintro r r' u u' ⟨⟨hr, hbus, hmmu, hmmu'⟩, hq, hq'⟩
    have hv := RAMBus.sameView_of_reads hq.reads
    have hv' := RAMBus.sameView_of_reads hq'.reads
    refine ⟨hr, ⟨⟨hbus, ?_⟩, ?_, ?_⟩, hview.trans hv⟩
    · rw [hmmu, hmmu', htruth.linked.reservation]
    · rw [hmmu]
      exact htruth.left.congr hv rfl htruth.left.cached
    · rw [hmmu']
      exact htruth.right.congr hv' rfl htruth.right.cached

/-- A step that uses no stale address ends alike whatever coherent TLB it begins with. -/
theorem stepCoreAPI_sameTruth (hmode : Satp.mode satp = 8) (hcore : m.core = m'.core)
    (h : SameTruth satp stale m.mem m'.mem) (hsatp : m.core.satp = satp)
    (hfresh : ∀ v, m.Uses v → ¬stale v) :
    Lock m m' stepCoreAPI stepCoreAPI (InStep (AfterStep satp stale m)) := by
  have henv : m.begun.mmuEnv.satp = satp := hsatp
  have hstart : DuringStep satp stale m m.clearLogs.mem m'.clearLogs.mem :=
    ⟨⟨⟨h.linked.bus, h.linked.reservation⟩, h.left, h.right⟩, .refl _⟩
  refine stepCoreAPI_lock hcore hstart (fun hf => ?_) (fun hfence s s' hs => hs.after hfence)
    (fun op rd hop s s' hs => ?_) fun a asid hfence s s' hs => hs.fence hfence
  · refine MMUSys.vaddrInstFetch_lock _ _ _ _ hstart fun piece hpiece buffer t t' ht => ?_
    exact ht.fetch hmode henv (fun hb => hfresh _ (.inl ⟨hf, hb, piece, hpiece, rfl⟩)) _ _
  · have hfence := fence_of_memOp hop
    refine op.perform_lock (R := DuringStep satp stale m) m.begun.mmuEnv (P := fun _ => True)
      (hs.after hfence) (fun _ => hs.access hfence _ _ _ _) (fun hb _ => ?_) (fun t t' ht => ht.after hfence)
      fun paddr t t' _ ht => ht.access hfence _ _ _ _
    refine (pagedAddr_lock hs.1 henv hmode (hfresh _ (.inr ⟨hb, op, rd, hop, rfl⟩)) _ _ _ _).mono ?_
    rintro r r' t t' ⟨hr, ht, hview⟩
    exact ⟨hr, ⟨ht, hs.2.trans hview⟩, fun _ _ => trivial⟩

end Step

/-! ## Programs -/

/-- What happens between two steps: the interrupt lines change, and other masters of the bus
write to memory. -/
structure Between where
  lines : IntStatus
  writes : List (Word × List Byte)

section Runs

variable {β : Type} [MMIOBus β]

/-- A write of another master. -/
def otherWrite (w : Word × List Byte) : Exec β Unit := do
  let _ ← Machine.onBus (MMIOBus.paddrWriteBuffer w.1 (BitVec.ofNat 64 w.2.length) w.2)

/-- The events between two steps. -/
def Between.happen (i : Between) : Exec β Unit := do
  onCore (modify fun c => { c with intStatus := i.lines })
  forM i.writes otherWrite

/-- The TLB emptied, and the reservation kept. -/
def Machine.emptyTLB (m : Machine β) : Machine β :=
  { m with
    mem := { m.mem with
      mmu := { m.mem.mmu with
        tlb := fun i => { m.mem.mmu.tlb i with pagesize := .invalid }
        tlbGetCache := fun _ => none } } }

/-- A program, with the TLB of the source. -/
def runCached (is : List Between) : Exec β Unit :=
  forM is fun i => do
    i.happen
    let _ ← stepCoreAPI

/-- The same program, where each step begins with an empty TLB. -/
def runUncached (is : List Between) : Exec β Unit :=
  forM is fun i => do
    i.happen
    modify Machine.emptyTLB
    let _ ← stepCoreAPI

end Runs

section Programs

variable {satp : Word} {stale : Word → Prop} {m m' : Machine RAMBus}

/-- Along the run `satp` stays, and no step uses an address whose walk has changed since it was
last fenced. -/
def Fenced (satp : Word) : List Between → (Word → Prop) → Machine RAMBus → Prop
  | [], _, _ => True
  | i :: is, stale, m => ∀ m₁, i.happen.run m = .ok () m₁ →
      let stale₁ := fun v => stale v ∨ walked satp m₁.mem.sysBus v ≠ walked satp m.mem.sysBus v
      m₁.core.satp = satp ∧ (∀ v, m₁.Uses v → ¬stale₁ v) ∧
        ∀ fb n, stepCoreAPI.run m₁ = .ok fb n →
          Fenced satp is (m₁.staleAfter satp stale₁ n.mem.sysBus) n

/-- Of the machines only the buses have changed, and they have one view. -/
structure BusesChanged (m m' n n' : Machine RAMBus) : Prop where
  core : n.core = m.core
  core' : n'.core = m'.core
  mmu : n.mem.mmu = m.mem.mmu
  mmu' : n'.mem.mmu = m'.mem.mmu
  view : SameView n.mem.sysBus n'.mem.sysBus

/-- Other masters write the same to both. -/
theorem otherWrites_lock (ws : List (Word × List Byte)) (m m' : Machine RAMBus)
    (h : SameView m.mem.sysBus m'.mem.sysBus) :
    Lock m m' (forM ws otherWrite) (forM ws otherWrite) fun _ _ => BusesChanged m m' := by
  refine .forM ws (fun w n n' hn => ?_) ⟨rfl, rfl, rfl, rfl, h⟩
  have hwrite := writesAlike_sameView w.1 (BitVec.ofNat 64 w.2.length) _ _ w.2 hn.view
  refine .bind (.part (fun a b hr => by rw [run_onBus, hr])
    (fun e b hr => by rw [run_onBus, hr]) (fun a b hr => by rw [run_onBus, hr])
    (fun e b hr => by rw [run_onBus, hr]) (hwrite.mono fun _ _ t t' ht => ?_))
  exact .pure ⟨hn.core, hn.core', hn.mmu, hn.mmu', ht.2⟩

/-- What happens between two steps happens alike to both. -/
theorem Between.happen_lock (i : Between) (hcore : m.core = m'.core)
    (h : SameTruth satp stale m.mem m'.mem) :
    Lock m m' i.happen i.happen fun _ _ n n' => n.core = n'.core ∧
      SameTruth satp (fun v => stale v ∨
        walked satp n.mem.sysBus v ≠ walked satp m.mem.sysBus v) n.mem n'.mem := by
  obtain ⟨c, s⟩ := m
  obtain ⟨c', s'⟩ := m'
  obtain rfl : c = c' := hcore
  refine .bind (onCore_lock rfl (.modify ?_))
  refine (otherWrites_lock i.writes ⟨{ c with intStatus := i.lines }, s⟩
    ⟨{ c with intStatus := i.lines }, s'⟩ h.linked.bus).mono ?_
  rintro _ _ n n' ⟨hc, hc', hmmu, hmmu', hview⟩
  refine ⟨hc.trans hc'.symm, ⟨hview, ?_⟩, ?_, ?_⟩
  · rw [hmmu, hmmu']
    exact h.linked.reservation
  · rw [hmmu]
    refine h.left.change rfl fun v hv => ?_
    exact ⟨fun hs => hv (.inl hs), not_not.mp fun hne => hv (.inr hne)⟩
  · rw [hmmu']
    refine h.right.change rfl fun v hv => ⟨fun hs => hv (.inl hs), ?_⟩
    have hwalk := not_not.mp fun hne => hv (.inr hne)
    rw [walked_congr hview, hwalk, ← walked_congr h.linked.bus]

/-- An empty TLB is coherent. -/
theorem SameTruth.emptyTLB (h : SameTruth satp stale m.mem m'.mem) :
    SameTruth satp stale m.mem m'.emptyTLB.mem := by
  have hslots : m'.emptyTLB.mem.mmu.slots = fun _ => none := by
    funext i
    exact if_pos rfl
  refine ⟨⟨h.linked.bus, h.linked.reservation⟩, h.left, ?_, ?_, nofun⟩
  · rw [hslots]
    exact .empty
  · rw [hslots]
    exact nofun

/-- A program that fences what it changes runs alike with the TLB and without it: every step
returns or aborts as it does on an empty TLB, with the same core, memory and reservation. -/
theorem tlb_invisible (hmode : Satp.mode satp = 8) (is : List Between) (hcore : m.core = m'.core)
    (h : SameTruth satp stale m.mem m'.mem) (hf : Fenced satp is stale m) :
    Lock m m' (runCached is) (runUncached is) fun _ _ n n' => n.core = n'.core ∧
      SameView n.mem.sysBus n'.mem.sysBus ∧
      n.mem.mmu.reservation = n'.mem.mmu.reservation := by
  induction is generalizing m m' stale with
  | nil => exact .pure ⟨hcore, h.linked.bus, h.linked.reservation⟩
  | cons i is ih =>
      rw [runCached, runUncached, List.forM_cons, List.forM_cons]
      have hrun : Sat m (i.happen (β := RAMBus)) (fun _ n => i.happen.run m = .ok () n)
          fun _ _ => True := .intro (fun _ _ hr => hr) fun _ _ _ => trivial
      refine .bind (.bind (((i.happen_lock hcore h).with hrun Sat.trivial).mono ?_))
      rintro _ _ m₁ m₁' ⟨⟨hcore₁, h₁⟩, hr, -⟩
      obtain ⟨hsatp, hfresh, hnext⟩ := hf m₁ hr
      have hempty : m₁.core = m₁'.emptyTLB.core := hcore₁
      have hstep := stepCoreAPI_sameTruth hmode hempty h₁.emptyTLB hsatp hfresh
      have hran : Sat m₁ (stepCoreAPI (β := RAMBus)) (fun fb n => stepCoreAPI.run m₁ = .ok fb n)
          fun _ _ => True := .intro (fun _ _ hr => hr) fun _ _ _ => trivial
      refine .modify_right (.bind ((hstep.with hran Sat.trivial).mono ?_))
      rintro fb _ n n' ⟨⟨-, hcore₂, h₂⟩, hr₂, -⟩
      exact .pure (ih hcore₂ h₂ (hnext fb n hr₂))

end Programs

/-- A new MMU agrees with itself. -/
theorem sameTruth_new {satp : Word} (storage : RV64SV39MMU) (b : RAMBus) (log : List BusAccess) :
    SameTruth satp (fun _ => False) ⟨construct storage, b, log⟩ ⟨construct storage, b, log⟩ := by
  have hinv : TLBInv satp b (fun _ => False) (construct storage) := by
    refine ⟨?_, ?_, .construct storage⟩ <;> rw [slots_construct]
    · exact .empty
    · exact nofun
  exact ⟨⟨.refl b, rfl⟩, hinv, hinv⟩

/-- Nothing happens but that the lines fall. -/
def quietly : Between := ⟨default, []⟩

def Machine.quieted (m : Machine RAMBus) : Machine RAMBus :=
  { m with core := { m.core with intStatus := default } }

theorem run_quietly (m : Machine RAMBus) : quietly.happen.run m = .ok () m.quieted := rfl

deriving instance DecidableEq for SV39TLBEntry

/-- The machine at the second step of `userStore`, where there is no instruction. -/
def userStored : Machine RAMBus := (Run.final (stepCoreAPI.run userStore.quieted)).quieted

theorem userStored_uses {v : Word} (h : userStored.Uses v) : v = 12 := by
  have hpieces : MMUSys.fetchPieces userStored.begun.currentProgramCounter 4 = [(12, 4)] := by
    decide +kernel
  have hmem : userStored.memOp.isNone = true := by decide +kernel
  obtain ⟨-, -, piece, hpiece, rfl⟩ | ⟨-, op, rd, hop, -⟩ := h
  · rw [hpieces, List.mem_singleton] at hpiece
    exact congrArg Prod.fst hpiece
  · rw [hop] at hmem
    cases hmem

/-- The store leaves the page table of `userStore` as it is. -/
theorem userStored_fenced :
    Fenced userStore.core.satp [quietly, quietly] (fun _ => False) userStore := by
  have hsatp : userStored.core.satp = userStore.core.satp := by decide +kernel
  have hwalk : walked userStore.core.satp userStored.mem.sysBus 12
      = walked userStore.core.satp userStore.quieted.mem.sysBus 12 := by decide +kernel
  intro m₁ hr
  rw [run_quietly] at hr
  obtain rfl : userStore.quieted = m₁ := (EStateM.Result.ok.inj hr).2
  refine ⟨rfl, fun v _ hv => hv.elim id fun hne => hne rfl, fun fb n hn m₂ hr₂ => ?_⟩
  rw [run_quietly] at hr₂
  obtain rfl : n.quieted = m₂ := (EStateM.Result.ok.inj hr₂).2
  have hend : userStored = n.quieted := by rw [userStored, hn, Run.final]
  rw [hend] at hsatp hwalk
  refine ⟨hsatp, fun v hv hstale => ?_, fun _ _ _ => trivial⟩
  rw [← hend] at hv
  obtain rfl : v = 12 := userStored_uses hv
  rcases hstale with (⟨hstale, -⟩ | hne) | hne
  · exact hstale.elim id fun hne => hne rfl
  · exact hne hwalk
  · exact hne rfl

theorem userStore_sameTruth :
    SameTruth userStore.core.satp (fun _ => False) userStore.mem userStore.mem :=
  sameTruth_new default _ []

/-- A store through the TLB that its fetch has filled, and one more step. -/
theorem tlb_invisible_store :
    (userStored.mem.mmu.tlb 0).pagesize = .size1G ∧
      Lock userStore userStore (runCached [quietly, quietly]) (runUncached [quietly, quietly])
        fun _ _ n n' => n.core = n'.core ∧ SameView n.mem.sysBus n'.mem.sysBus ∧
          n.mem.mmu.reservation = n'.mem.mmu.reservation := by
  have hmode : Satp.mode userStore.core.satp = 8 := by decide
  refine ⟨by decide +kernel, ?_⟩
  exact tlb_invisible hmode _ rfl userStore_sameTruth userStored_fenced

end MEmu
