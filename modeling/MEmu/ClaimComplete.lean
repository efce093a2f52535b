import MEmu.Plic
import MEmu.Lib.Trace

/-!
# Claiming and completing an interrupt

A run of the interrupt controller is any sequence of updates, bus accesses and changes of the
registered devices, and leaves a record of each.  A source is marked as claimed exactly where
a claim read has handed it out since its last completion.  But a claim read does not look at
the mark, and a completion does not either and drops the pending bit as well, so a run keeps
the life cycle of its claims exactly where each step finds the mark that it should.
-/

namespace MEmu

open Run (Sat)
open Trace (Each Since each_nil each_snoc since_snoc not_since_nil)

/-! ## Runs of the controller -/

/-- An operation on the adapter. -/
inductive PlicOp where
  | update (irq : DevHandle → Bool)
  | read (begin_addr size : Word) (buffer : BitVec 32)
  | write (begin_addr size : Word) (buffer : BitVec 32)
  | register (int_id : BitVec 32) (dev : DevHandle)
  | unregister (int_id : BitVec 32)

/-- The operation, with the word that a read hands out. -/
def PlicOp.call : PlicOp → AdapterM (Option (BitVec 32))
  | update irq => do
      let _ ← CemuPlicAdapter.updateIntState irq
      pure none
  | read begin_addr size buffer => do
      let r ← CemuPlicAdapter.readBuffer begin_addr size buffer
      pure (if r.1 = .ok then some r.2 else none)
  | write begin_addr size buffer => do
      let _ ← CemuPlicAdapter.writeBuffer begin_addr size buffer
      pure none
  | register int_id dev => do
      let _ ← CemuPlicAdapter.registerDev int_id dev
      pure none
  | unregister int_id => do
      let _ ← CemuPlicAdapter.unregisterDev int_id
      pure none

/-- An operation of a run.  `result` is what it handed out and the adapter after it, and none
where it did not return. -/
structure PlicRecord where
  op : PlicOp
  before : CemuPlicAdapter
  result : Option (Option (BitVec 32) × CemuPlicAdapter)

/-- The record of an operation on `a`. -/
def plicRecord (op : PlicOp) (a : CemuPlicAdapter) : PlicRecord :=
  { op := op
    before := a
    result := match op.call.run a with
      | .ok out a' => some (out, a')
      | .error _ _ => none }

/-- A run of a new adapter: any operations in any order, up to one that does not return. -/
inductive PlicRun : List PlicRecord → Option CemuPlicAdapter → Prop where
  | new (core0 core1 : IntStatus) : PlicRun [] (some (.new core0 core1))
  | step {trace : List PlicRecord} {a : CemuPlicAdapter} (hr : PlicRun trace (some a))
      (op : PlicOp) :
      PlicRun (trace ++ [plicRecord op a]) ((plicRecord op a).result.map Prod.snd)

/-! ## The life cycle of a claim -/

/-- A source of the controller. -/
def IsSource (source : BitVec 32) : Prop := 1 ≤ source.toNat ∧ source.toNat ≤ 4

/-- The context whose claim and complete register an access of the adapter names. -/
def CemuPlicAdapter.accessContext (a : CemuPlicAdapter) (begin_addr size : Word) : Option Nat :=
  if begin_addr + size ≤ a.addrRegionSize then RVPLICtrl.claimContext 4 begin_addr size else none

namespace PlicRecord

/-- A claim read of the context. -/
def IsClaimRead (context_id : Nat) (r : PlicRecord) : Prop :=
  ∃ begin_addr buffer, r.op = .read begin_addr 4 buffer ∧
    r.before.accessContext begin_addr 4 = some context_id

/-- A claim read that returned `source`. -/
def Claims (source : BitVec 32) (r : PlicRecord) : Prop :=
  (∃ context_id, r.IsClaimRead context_id) ∧ ∃ after, r.result = some (some source, after)

/-- A completion write for `source`. -/
def Completes (source : BitVec 32) (r : PlicRecord) : Prop :=
  ∃ begin_addr size context_id, r.op = .write begin_addr size source ∧
    r.before.accessContext begin_addr size = some context_id

/-- The operation returned, and pending and claimed of every source are as before it. -/
def LeavesSources (r : PlicRecord) : Prop :=
  ∃ out after, r.result = some (out, after) ∧ ∀ i, 1 ≤ i → i ≤ 4 →
    sourceBit after.intCtrl.pending i = sourceBit r.before.intCtrl.pending i ∧
      sourceBit after.intCtrl.claimed i = sourceBit r.before.intCtrl.claimed i

/-- A claim read finds that its latched source is not claimed, and a completion write is for a
word of the source bits, and for no source that is pending and not claimed. -/
structure Orderly (r : PlicRecord) : Prop where
  claims : ∀ k : Fin 4, r.IsClaimRead k → r.before.intCtrl.claim k ≠ 0 →
    sourceBit r.before.intCtrl.claimed (r.before.intCtrl.claim k).toNat = false
  completes : ∀ source, r.Completes source → source.toNat < 32 ∧ (IsSource source →
    sourceBit r.before.intCtrl.claimed source.toNat = true ∨
      sourceBit r.before.intCtrl.pending source.toNat = false)

end PlicRecord

/-- After the records, the source is claimed and not yet completed. -/
def Claimed (source : BitVec 32) : List PlicRecord → Prop :=
  Since (PlicRecord.Claims source) (PlicRecord.Completes source)

/-- The life cycle of claims. -/
structure ClaimLifecycle (trace : List PlicRecord) : Prop where
  /-- No claim read returns a source that is claimed. -/
  exclusive : Each (fun pre r => ∀ source ≠ 0, r.Claims source → ¬Claimed source pre) trace
  /-- A completion of what is not claimed, or is not a source, does nothing. -/
  ignored : Each (fun pre r => ∀ source, r.Completes source →
    ¬Claimed source pre ∨ ¬IsSource source → r.LeavesSources) trace

/-! ## What one operation does -/

namespace CemuPlicAdapter

/-- The adapter after a claim read of context `k`. -/
def claimedBy (a : CemuPlicAdapter) (k : Fin 4) : CemuPlicAdapter :=
  { a with intCtrl.claimed := setSource a.intCtrl.claimed 0 (a.intCtrl.claim k) }

/-- The adapter after a completion of `source`. -/
def completed (a : CemuPlicAdapter) (source : BitVec 32) : CemuPlicAdapter :=
  { a with
    intCtrl.claimed := clearSource a.intCtrl.claimed 0 source
    intCtrl.pending := clearSource a.intCtrl.pending 0 source }

end CemuPlicAdapter

/-- What one operation on `a` does to the claims. -/
inductive PlicStep (a : CemuPlicAdapter) (r : PlicRecord) : Prop where
  | claim (k : Fin 4) (hread : ∀ context_id, r.IsClaimRead context_id ↔ context_id = k)
      (hno : ∀ source, ¬r.Completes source)
      (hresult : r.result = some (some (a.intCtrl.claim k), a.claimedBy k))
  | complete (source : BitVec 32) (hwrite : ∀ source', r.Completes source' ↔ source' = source)
      (hno : ∀ context_id, ¬r.IsClaimRead context_id)
      (hin : source.toNat < 32 → r.result = some (none, a.completed source))
      (hout : ¬source.toNat < 32 → r.result = none)
  | other (hread : ∀ k : Fin 4, ¬r.IsClaimRead k) (hclaims : ∀ source, ¬r.Claims source)
      (hwrite : ∀ source, ¬r.Completes source)
      (hresult : ∀ out after, r.result = some (out, after) → after.Latched a.intCtrl.claimed)

section Step

variable {op : PlicOp} {a : CemuPlicAdapter}

/-- A record is known by what the operation returns. -/
theorem plicRecord_ok {out : Option (BitVec 32)} {a' : CemuPlicAdapter}
    (h : Sat a op.call (fun r s => r = out ∧ s = a') (fun _ _ => False)) :
    (plicRecord op a).result = some (out, a') := by
  obtain ⟨r, s, hr, rfl, rfl⟩ := h.exists_ok
  rw [plicRecord, hr]

theorem plicRecord_error (h : Sat a op.call (fun _ _ => False) (fun _ _ => True)) :
    (plicRecord op a).result = none := by
  obtain ⟨e, s, hr, -⟩ := h.exists_error
  rw [plicRecord, hr]

theorem plicRecord_latched {claimed : Fin (sourceWords 4) → BitVec 32}
    (h : Sat a op.call (fun _ => CemuPlicAdapter.Latched claimed) (fun _ _ => True))
    (out : Option (BitVec 32)) (after : CemuPlicAdapter)
    (hresult : (plicRecord op a).result = some (out, after)) : after.Latched claimed := by
  unfold plicRecord at hresult
  cases hr : op.call.run a with
  | ok r s =>
      rw [hr] at hresult
      cases hresult
      exact h.ok hr
  | error e s =>
      rw [hr] at hresult
      cases hresult

/-- An operation that is no access names no register. -/
theorem plicStep_of_latched (hread : ∀ begin_addr buffer, op = .read begin_addr 4 buffer →
      a.accessContext begin_addr 4 = none)
    (hwrite : ∀ begin_addr size buffer, op = .write begin_addr size buffer →
      a.accessContext begin_addr size = none)
    (h : Sat a op.call (fun _ => CemuPlicAdapter.Latched a.intCtrl.claimed) (fun _ _ => True)) :
    PlicStep a (plicRecord op a) := by
  have hno : ∀ context_id, ¬(plicRecord op a).IsClaimRead context_id := by
    rintro context_id ⟨begin_addr, buffer, hop, hctx⟩
    cases (hread _ _ hop).symm.trans hctx
  refine .other (fun k => hno k) ?_ ?_ (plicRecord_latched h)
  · rintro source ⟨⟨context_id, hclaim⟩, -⟩
    exact hno context_id hclaim
  · rintro source ⟨begin_addr, size, context_id, hop, hctx⟩
    cases (hwrite _ _ _ hop).symm.trans hctx

theorem accessContext_of_region {begin_addr size : Word} {context_id : Nat}
    (h : a.accessContext begin_addr size = some context_id) :
    begin_addr + size ≤ a.addrRegionSize ∧
      RVPLICtrl.claimContext 4 begin_addr size = some context_id := by
  unfold CemuPlicAdapter.accessContext at h
  split at h
  · exact ⟨‹_›, h⟩
  · cases h

/-- A claim read of context `k`. -/
theorem call_claim {begin_addr : Word} {k : Fin 4} (buffer : BitVec 32)
    (hlatch : (a.intCtrl.claim k).toNat ≤ 4) (h : a.accessContext begin_addr 4 = some k) :
    Sat a (PlicOp.read begin_addr 4 buffer).call
      (fun r s => r = some (a.intCtrl.claim k) ∧ s = a.claimedBy k) (fun _ _ => False) := by
  obtain ⟨hregion, hctx⟩ := accessContext_of_region h
  refine .bind (.bind (.get ?_))
  rw [if_pos hregion, RVPLICtrl.doRead_claim hctx]
  refine .bind (CemuPlicAdapter.onCtrl_sat (.bind (.get ?_)))
  rw [RVPLICtrl.index_val, pure_bind]
  refine .bind (RVPLICtrl.index_sat (fun i hi => ?_) fun hout => ?_)
  · have hi : i = 0 := Fin.ext (hi.trans (Nat.div_eq_of_lt (by omega)))
    rw [hi]
    exact .bind (.set (.pure (.pure ⟨rfl, rfl⟩)))
  · rw [Nat.div_eq_of_lt (show (a.intCtrl.claim k).toNat < 32 by omega)] at hout
    exact absurd hout (by decide)

/-- A claim read of the context past the last one. -/
theorem call_claim_out {begin_addr : Word} {context_id : Nat} (buffer : BitVec 32)
    (hout : ¬context_id < 4) (h : a.accessContext begin_addr 4 = some context_id) :
    Sat a (PlicOp.read begin_addr 4 buffer).call (fun _ _ => False) (fun _ _ => True) := by
  obtain ⟨hregion, hctx⟩ := accessContext_of_region h
  refine .bind (.bind (.get ?_))
  rw [if_pos hregion, RVPLICtrl.doRead_claim hctx]
  refine .bind (CemuPlicAdapter.onCtrl_sat (.bind (.get (.bind ?_))))
  exact RVPLICtrl.index_sat (fun k hk => absurd (hk ▸ k.isLt) hout) fun _ => trivial

/-- A completion of `source`. -/
theorem call_complete {begin_addr size : Word} {context_id : Nat} {source : BitVec 32}
    (hin : source.toNat < 32) (h : a.accessContext begin_addr size = some context_id) :
    Sat a (PlicOp.write begin_addr size source).call
      (fun r s => r = none ∧ s = a.completed source) (fun _ _ => False) := by
  obtain ⟨hregion, hctx⟩ := accessContext_of_region h
  refine .bind (.bind (.get ?_))
  rw [if_pos hregion, RVPLICtrl.doWrite_complete hctx]
  refine .bind (CemuPlicAdapter.onCtrl_sat (.bind (.get (.bind ?_))))
  refine RVPLICtrl.index_sat (fun i hi => ?_) fun hout => ?_
  · have hi : i = 0 := Fin.ext (hi.trans (Nat.div_eq_of_lt hin))
    rw [hi]
    exact .bind (.set (.pure (.pure ⟨rfl, rfl⟩)))
  · rw [Nat.div_eq_of_lt hin] at hout
    exact absurd hout (by decide)

/-- A completion outside the words of the source bits. -/
theorem call_complete_out {begin_addr size : Word} {context_id : Nat} {source : BitVec 32}
    (hout : ¬source.toNat < 32) (h : a.accessContext begin_addr size = some context_id) :
    Sat a (PlicOp.write begin_addr size source).call (fun _ _ => False) (fun _ _ => True) := by
  obtain ⟨hregion, hctx⟩ := accessContext_of_region h
  refine .bind (.bind (.get ?_))
  rw [if_pos hregion, RVPLICtrl.doWrite_complete hctx]
  refine .bind (CemuPlicAdapter.onCtrl_sat (.bind (.get (.bind ?_))))
  refine RVPLICtrl.index_sat (fun i hi => ?_) fun _ => trivial
  have : (i : Nat) < 1 := i.isLt
  omega

/-- An access in range that names no claim register of the adapter names none of the
controller. -/
theorem claimContext_of_none {begin_addr size : Word} (h : a.accessContext begin_addr size = none)
    (hregion : begin_addr + size ≤ a.addrRegionSize) :
    RVPLICtrl.claimContext 4 begin_addr size = none := by
  rwa [CemuPlicAdapter.accessContext, if_pos hregion] at h

/-- A read of another register, or one that `do_read` refuses. -/
theorem call_read_other {begin_addr size : Word} (buffer : BitVec 32)
    (hlatch : ∀ k, (a.intCtrl.claim k).toNat ≤ 4)
    (h : size = 4 → a.accessContext begin_addr size = none) :
    Sat a (PlicOp.read begin_addr size buffer).call
      (fun _ => CemuPlicAdapter.Latched a.intCtrl.claimed) (fun _ _ => True) := by
  refine .bind (.bind (.get (.ite (fun hregion => ?_) fun _ => .throw trivial)))
  refine .bind (CemuPlicAdapter.onCtrl_sat ?_)
  by_cases hsize : size = 4
  · have hctx := claimContext_of_none (h hsize) hregion
    refine (RVPLICtrl.doRead_other hctx buffer).mono ?_ fun _ _ _ => trivial
    rintro _ _ rfl
    exact .pure (.pure ⟨rfl, hlatch⟩)
  · rw [RVPLICtrl.doRead, if_pos hsize]
    exact .throw trivial

/-- A write of another register. -/
theorem call_write_other {begin_addr size : Word} (buffer : BitVec 32)
    (hlatch : ∀ k, (a.intCtrl.claim k).toNat ≤ 4) (h : a.accessContext begin_addr size = none) :
    Sat a (PlicOp.write begin_addr size buffer).call
      (fun _ => CemuPlicAdapter.Latched a.intCtrl.claimed) (fun _ _ => True) := by
  refine .bind (.bind (.get (.ite (fun hregion => ?_) fun _ => .throw trivial)))
  refine .bind (CemuPlicAdapter.onCtrl_sat ?_)
  have hctx := claimContext_of_none h hregion
  refine (RVPLICtrl.doWrite_other hctx buffer).mono ?_ fun _ _ _ => trivial
  rintro _ c ⟨-, hclaimed, hclaim⟩
  refine .pure (.pure ⟨hclaimed, fun k => ?_⟩)
  show (c.claim k).toNat ≤ 4
  rw [hclaim]
  exact hlatch k

end Step

/-- Every call of the adapter is a step of the claim rule: with the off-by-one of its context
test, the index that leaves the array of latches ends the run. -/
theorem plicStep (op : PlicOp) {a : CemuPlicAdapter} (hlatch : ∀ k, (a.intCtrl.claim k).toNat ≤ 4) :
    PlicStep a (plicRecord op a) := by
  have hsame : a.Latched a.intCtrl.claimed := ⟨rfl, hlatch⟩
  cases op with
  | update irq =>
      refine plicStep_of_latched nofun nofun (.bind ?_)
      exact (CemuPlicAdapter.updateIntState_latched irq hsame).mono (fun _ _ h => .pure h)
        fun _ _ _ => trivial
  | register int_id dev =>
      refine plicStep_of_latched nofun nofun (.bind (.bind (.get ?_)))
      exact .ite (fun _ => .pure (.pure hsame)) fun _ => .bind (.set (.pure (.pure ⟨rfl, hlatch⟩)))
  | unregister int_id =>
      refine plicStep_of_latched nofun nofun (.bind (.bind (.get ?_)))
      exact .ite (fun _ => .bind (.set (.pure (.pure ⟨rfl, hlatch⟩)))) fun _ => .pure (.pure hsame)
  | read begin_addr size buffer =>
      by_cases hother : size = 4 → a.accessContext begin_addr size = none
      · refine plicStep_of_latched ?_ nofun (call_read_other buffer hlatch hother)
        rintro _ _ ⟨⟩
        exact hother rfl
      · obtain ⟨rfl, hsome⟩ := Classical.not_imp.mp hother
        obtain ⟨context_id, hctx⟩ := Option.ne_none_iff_exists'.mp hsome
        have hread (k : Nat) :
            (plicRecord (.read begin_addr 4 buffer) a).IsClaimRead k ↔ k = context_id := by
          constructor
          · rintro ⟨_, _, ⟨⟩, hk⟩
            exact Option.some.inj (hk.symm.trans hctx)
          · rintro rfl
            exact ⟨_, _, rfl, hctx⟩
        have hno : ∀ source, ¬(plicRecord (.read begin_addr 4 buffer) a).Completes source := by
          rintro _ ⟨_, _, _, ⟨⟩, -⟩
        by_cases hlt : context_id < 4
        · exact .claim ⟨context_id, hlt⟩ hread hno
            (plicRecord_ok (call_claim buffer (hlatch ⟨context_id, hlt⟩) hctx))
        · have hresult := plicRecord_error (call_claim_out buffer hlt hctx)
          refine .other (fun k hk => hlt ((hread k).mp hk ▸ k.isLt)) ?_ hno ?_
          · rintro source ⟨-, after, h⟩
            cases hresult.symm.trans h
          · intro out after h
            cases hresult.symm.trans h
  | write begin_addr size buffer =>
      cases hctx : a.accessContext begin_addr size with
      | none =>
          refine plicStep_of_latched nofun ?_ (call_write_other buffer hlatch hctx)
          rintro _ _ _ ⟨⟩
          exact hctx
      | some context_id =>
          refine .complete buffer (fun source => ⟨?_, ?_⟩) ?_
            (fun hin => plicRecord_ok (call_complete hin hctx))
            fun hout => plicRecord_error (call_complete_out hout hctx)
          · rintro ⟨_, _, _, ⟨⟩, -⟩
            rfl
          · rintro rfl
            exact ⟨_, _, _, rfl, hctx⟩
          · rintro _ ⟨_, _, ⟨⟩, -⟩

/-! ## The state of a run -/

/-- The claimed bits are the history of the claims, and the latches hold sources or 0. -/
structure PlicInv (trace : List PlicRecord) (a : CemuPlicAdapter) : Prop where
  claimed : ∀ source : BitVec 32, source.toNat < 32 →
    (sourceBit a.intCtrl.claimed source.toNat = true ↔ Claimed source trace)
  latch : ∀ k, (a.intCtrl.claim k).toNat ≤ 4

section Inv

variable {trace : List PlicRecord} {a : CemuPlicAdapter} {r : PlicRecord}

theorem PlicInv.new (core0 core1 : IntStatus) : PlicInv [] (.new core0 core1) where
  claimed source hin := by
    refine iff_of_false ?_ not_since_nil
    rw [sourceBit_of_lt _ (show source.toNat / 32 < sourceWords 4 by
      rw [Nat.div_eq_of_lt hin]
      decide)]
    show ¬(0#32).getLsbD (source.toNat % 32) = true
    rw [BitVec.getLsbD_zero]
    exact Bool.false_ne_true
  latch _ := Nat.zero_le _

/-- A claimed source after one more record. -/
theorem claimed_snoc {source : BitVec 32} :
    Claimed source (trace ++ [r]) ↔ r.Claims source ∨ Claimed source trace ∧ ¬r.Completes source :=
  since_snoc

/-- What a claim read returns is the latch. -/
theorem claims_iff {k : Fin 4} {source latch : BitVec 32} {a' : CemuPlicAdapter}
    (hread : r.IsClaimRead k) (hresult : r.result = some (some latch, a')) :
    r.Claims source ↔ source = latch := by
  constructor
  · rintro ⟨-, after, h⟩
    rw [hresult] at h
    cases h
    rfl
  · rintro rfl
    exact ⟨⟨k, hread⟩, a', hresult⟩

theorem PlicInv.step (hinv : PlicInv trace a) (hstep : PlicStep a r) {out : Option (BitVec 32)}
    {a' : CemuPlicAdapter} (hresult : r.result = some (out, a')) : PlicInv (trace ++ [r]) a' := by
  cases hstep with
  | claim k hread hno hclaim =>
      have hclaims (source : BitVec 32) : r.Claims source ↔ source = a.intCtrl.claim k :=
        claims_iff ((hread k).mpr rfl) hclaim
      rw [hclaim] at hresult
      cases hresult
      refine ⟨fun source hin => ?_, hinv.latch⟩
      have hword : ((0 : Fin (sourceWords 4)) : Nat) = (a.intCtrl.claim k).toNat / 32 :=
        (Nat.div_eq_of_lt (by have := hinv.latch k; omega)).symm
      show sourceBit (setSource _ 0 _) _ = true ↔ _
      rw [sourceBit_setSource hword, claimed_snoc, hclaims, ← hinv.claimed source hin,
        and_iff_left (hno source)]
      by_cases hs : source = a.intCtrl.claim k
      · rw [if_pos (congrArg BitVec.toNat hs)]
        exact iff_of_true rfl (.inl hs)
      · rw [if_neg (mt BitVec.toNat_inj.mp hs), or_iff_right hs]
  | complete source hwrite hno hin hout =>
      have hsource : source.toNat < 32 := by
        by_contra hs
        rw [hout hs] at hresult
        cases hresult
      rw [hin hsource] at hresult
      cases hresult
      refine ⟨fun source' hin' => ?_, hinv.latch⟩
      have hword : ((0 : Fin (sourceWords 4)) : Nat) = source.toNat / 32 :=
        (Nat.div_eq_of_lt hsource).symm
      show sourceBit (clearSource _ 0 _) _ = true ↔ _
      have hclaims : ¬r.Claims source' := fun ⟨⟨context_id, h⟩, _⟩ => hno context_id h
      rw [sourceBit_clearSource hword, claimed_snoc, or_iff_right hclaims, hwrite,
        ← hinv.claimed source' hin']
      by_cases hs : source' = source
      · rw [if_pos (congrArg BitVec.toNat hs)]
        exact iff_of_false Bool.false_ne_true fun h => h.2 hs
      · rw [if_neg (mt BitVec.toNat_inj.mp hs), and_iff_left hs]
  | other hread hclaims hwrite hlatched =>
      obtain ⟨hclaimed, hlatch⟩ := hlatched out a' hresult
      refine ⟨fun source hin => ?_, hlatch⟩
      rw [hclaimed, claimed_snoc, or_iff_right (hclaims source), and_iff_left (hwrite source)]
      exact hinv.claimed source hin

/-- A completion leaves the sources as they are exactly where it is for no source that is
pending or claimed. -/
theorem leavesSources_of_complete {source : BitVec 32} (hin : source.toNat < 32)
    (hbefore : r.before = a) (hresult : r.result = some (none, a.completed source)) :
    r.LeavesSources ↔ (IsSource source → sourceBit a.intCtrl.pending source.toNat = false ∧
      sourceBit a.intCtrl.claimed source.toNat = false) := by
  have hword : ((0 : Fin (sourceWords 4)) : Nat) = source.toNat / 32 :=
    (Nat.div_eq_of_lt hin).symm
  have hpending (i : Nat) : sourceBit (a.completed source).intCtrl.pending i
      = if i = source.toNat then false else sourceBit a.intCtrl.pending i :=
    sourceBit_clearSource hword i
  have hclaimed (i : Nat) : sourceBit (a.completed source).intCtrl.claimed i
      = if i = source.toNat then false else sourceBit a.intCtrl.claimed i :=
    sourceBit_clearSource hword i
  constructor
  · rintro ⟨out, after, h, hsame⟩ ⟨hlo, hhi⟩
    rw [hresult] at h
    cases h
    obtain ⟨hp, hc⟩ := hsame _ hlo hhi
    rw [hpending, if_pos rfl, hbefore] at hp
    rw [hclaimed, if_pos rfl, hbefore] at hc
    exact ⟨hp.symm, hc.symm⟩
  · intro hclear
    refine ⟨_, _, hresult, fun i hlo hhi => ?_⟩
    rw [hpending, hclaimed, hbefore]
    split
    · rename_i hi
      subst hi
      obtain ⟨hp, hc⟩ := hclear ⟨hlo, hhi⟩
      exact ⟨hp.symm, hc.symm⟩
    · exact ⟨rfl, rfl⟩

/-- One operation keeps the life cycle exactly where it is orderly. -/
theorem orderly_iff (hinv : PlicInv trace a) (hstep : PlicStep a r) (hbefore : r.before = a) :
    r.Orderly ↔ (∀ source ≠ 0, r.Claims source → ¬Claimed source trace) ∧
      ∀ source, r.Completes source → ¬Claimed source trace ∨ ¬IsSource source →
        r.LeavesSources := by
  cases hstep with
  | claim k hread hno hclaim =>
      have hlatch : (a.intCtrl.claim k).toNat < 32 := by
        have := hinv.latch k
        omega
      constructor
      · rintro ⟨hclaims, -⟩
        refine ⟨fun source hne hs hclaimed => ?_, fun source hc => absurd hc (hno source)⟩
        obtain rfl := (claims_iff ((hread k).mpr rfl) hclaim).mp hs
        have hclear := hclaims k ((hread k).mpr rfl) (hbefore ▸ hne)
        rw [hbefore, (hinv.claimed _ hlatch).mpr hclaimed] at hclear
        cases hclear
      · rintro ⟨hexclusive, -⟩
        refine ⟨fun k' hk' hne => ?_, fun source hc => absurd hc (hno source)⟩
        obtain rfl : k' = k := Fin.ext ((hread k').mp hk')
        rw [hbefore] at hne ⊢
        rw [Bool.eq_false_iff]
        intro hbit
        exact hexclusive _ hne ((claims_iff hk' hclaim).mpr rfl) ((hinv.claimed _ hlatch).mp hbit)
  | complete source hwrite hno hin hout =>
      constructor
      · rintro ⟨-, hcompletes⟩
        refine ⟨fun s _ ⟨⟨context_id, h⟩, _⟩ => absurd h (hno context_id), fun s hs hor => ?_⟩
        obtain rfl := (hwrite s).mp hs
        obtain ⟨hlt, hbits⟩ := hcompletes s hs
        rw [hbefore] at hbits
        refine (leavesSources_of_complete hlt hbefore (hin hlt)).mpr fun hsource => ?_
        have hclear : sourceBit a.intCtrl.claimed s.toNat = false := by
          rw [Bool.eq_false_iff]
          exact mt (hinv.claimed s hlt).mp (hor.resolve_right (not_not_intro hsource))
        refine ⟨(hbits hsource).resolve_left ?_, hclear⟩
        rw [hclear]
        exact Bool.false_ne_true
      · rintro ⟨-, hignored⟩
        refine ⟨fun k hk => absurd hk (hno k), fun s hs => ?_⟩
        obtain rfl := (hwrite s).mp hs
        have hlt : s.toNat < 32 := by
          by_contra hlt
          obtain ⟨out, after, h, -⟩ := hignored s hs (.inr fun hs => hlt (by
            have := hs.2
            omega))
          cases (hout hlt).symm.trans h
        refine ⟨hlt, fun hsource => ?_⟩
        rw [hbefore]
        cases hbit : sourceBit a.intCtrl.claimed s.toNat with
        | true => exact .inl rfl
        | false =>
            have hclear : ¬Claimed s trace := by
              rw [← hinv.claimed s hlt, hbit]
              exact Bool.false_ne_true
            have hleaves := hignored s hs (.inl hclear)
            rw [leavesSources_of_complete hlt hbefore (hin hlt)] at hleaves
            exact .inr (hleaves hsource).1
  | other hread hclaims hwrite hlatched =>
      exact ⟨fun _ => ⟨fun s _ hs => absurd hs (hclaims s), fun s hs => absurd hs (hwrite s)⟩,
        fun _ => ⟨fun k hk => absurd hk (hread k), fun s hs => absurd hs (hwrite s)⟩⟩

theorem PlicRun.inv {last : Option CemuPlicAdapter} (hr : PlicRun trace last)
    (hlast : last = some a) : PlicInv trace a := by
  induction hr generalizing a with
  | new core0 core1 =>
      cases hlast
      exact .new core0 core1
  | step hr op ih =>
      obtain ⟨⟨out, after⟩, hresult, rfl⟩ := Option.map_eq_some_iff.mp hlast
      exact (ih rfl).step (plicStep op (ih rfl).latch) hresult

theorem claimLifecycle_snoc :
    ClaimLifecycle (trace ++ [r]) ↔ ClaimLifecycle trace ∧
      (∀ source ≠ 0, r.Claims source → ¬Claimed source trace) ∧
      ∀ source, r.Completes source → ¬Claimed source trace ∨ ¬IsSource source →
        r.LeavesSources := by
  constructor
  · rintro ⟨hexclusive, hignored⟩
    obtain ⟨he, her⟩ := each_snoc.mp hexclusive
    obtain ⟨hi, hir⟩ := each_snoc.mp hignored
    exact ⟨⟨he, hi⟩, her, hir⟩
  · rintro ⟨⟨he, hi⟩, her, hir⟩
    exact ⟨each_snoc.mpr ⟨he, her⟩, each_snoc.mpr ⟨hi, hir⟩⟩

/-- A run keeps the life cycle of its claims exactly where each of its steps is orderly. -/
theorem claimLifecycle_iff {last : Option CemuPlicAdapter} (hr : PlicRun trace last) :
    ClaimLifecycle trace ↔ ∀ r ∈ trace, r.Orderly := by
  induction hr with
  | new core0 core1 => exact iff_of_true ⟨each_nil, each_nil⟩ (List.forall_mem_nil _)
  | step hr op ih =>
      have hinv := hr.inv rfl
      rw [claimLifecycle_snoc, ih, ← orderly_iff hinv (plicStep op hinv.latch) rfl,
        List.forall_mem_append, List.forall_mem_singleton]

end Inv

/-! ## Two runs -/

/-- The adapter after an operation. -/
def PlicOp.next (op : PlicOp) (a : CemuPlicAdapter) : CemuPlicAdapter :=
  Run.final (op.call.run a)

theorem PlicRun.next {trace : List PlicRecord} {a : CemuPlicAdapter}
    (hr : PlicRun trace (some a)) (op : PlicOp) (hok : (plicRecord op a).result.isSome) :
    PlicRun (trace ++ [plicRecord op a]) (some (op.next a)) := by
  have hnext : (plicRecord op a).result.map Prod.snd = some (op.next a) := by
    unfold plicRecord PlicOp.next at *
    cases hrun : op.call.run a with
    | ok out a' => rfl
    | error e a' =>
        rw [hrun] at hok
        cases hok
  exact hnext ▸ hr.step op

/-- Source 1, from device 0, with priority 1, is enabled for the contexts 0 and 1 and fires. -/
def configure : List PlicOp :=
  [.register 1 0, .write 4 4 1, .write 0x2000 4 2, .write 0x2080 4 2, .update fun _ => true]

/-- Claim reads of the contexts 0 and 1. -/
def claim0 : PlicOp := .read 0x200004 4 0
def claim1 : PlicOp := .read 0x201004 4 0

/-- A completion of source 1 by context 0. -/
def complete1 : PlicOp := .write 0x200004 4 1

/-- The records of some operations, and the adapter after them. -/
def recordsFrom (a : CemuPlicAdapter) : List PlicOp → List PlicRecord
  | [] => []
  | op :: ops => plicRecord op a :: recordsFrom (op.next a) ops

def adapterAfter (a : CemuPlicAdapter) (ops : List PlicOp) : CemuPlicAdapter :=
  ops.foldl (fun a op => op.next a) a

theorem PlicRun.records {trace : List PlicRecord} {a : CemuPlicAdapter} (ops : List PlicOp)
    (hr : PlicRun trace (some a)) (hok : ∀ r ∈ recordsFrom a ops, r.result.isSome) :
    PlicRun (trace ++ recordsFrom a ops) (some (adapterAfter a ops)) := by
  induction ops generalizing trace a with
  | nil =>
      rw [recordsFrom, List.append_nil]
      exact hr
  | cons op ops ih =>
      obtain ⟨hop, hops⟩ := List.forall_mem_cons.mp hok
      have hrest := ih (hr.next op hop) hops
      rwa [List.append_assoc, List.singleton_append] at hrest

/-- The adapter once source 1 is latched for the contexts 0 and 1. -/
def configured : CemuPlicAdapter := adapterAfter (.new default default) configure

theorem run_configure :
    PlicRun (recordsFrom (.new default default) configure) (some configured) :=
  (PlicRun.new default default).records configure (by decide)

theorem PlicRecord.Orderly.of_other {r : PlicRecord}
    (hread : ∀ begin_addr buffer, r.op = .read begin_addr 4 buffer →
      r.before.accessContext begin_addr 4 = none)
    (hwrite : ∀ begin_addr size buffer, r.op = .write begin_addr size buffer →
      r.before.accessContext begin_addr size = none) : r.Orderly where
  claims := by
    rintro k ⟨begin_addr, buffer, hop, hctx⟩
    cases (hread _ _ hop).symm.trans hctx
  completes := by
    rintro source ⟨begin_addr, size, context_id, hop, hctx⟩
    cases (hwrite _ _ _ hop).symm.trans hctx

theorem orderly_configure : ∀ r ∈ recordsFrom (.new default default) configure, r.Orderly := by
  simp only [configure, recordsFrom, List.forall_mem_cons]
  refine ⟨.of_other nofun nofun, .of_other nofun ?_, .of_other nofun ?_, .of_other nofun ?_,
    .of_other nofun nofun, List.forall_mem_nil _⟩
  · rintro _ _ _ ⟨⟩
    decide
  · rintro _ _ _ ⟨⟩
    decide
  · rintro _ _ _ ⟨⟩
    decide

/-- One context claims the source and completes it. -/
theorem claimLifecycle_iff_once :
    ∃ trace last, PlicRun trace last ∧ ClaimLifecycle trace ∧ trace.length = 7 := by
  have hr := (run_configure.next claim0 (by decide)).next complete1 (by decide)
  refine ⟨_, _, hr, (claimLifecycle_iff hr).mpr fun r hmem => ?_, rfl⟩
  rcases List.mem_append.mp hmem with hmem | hlast
  · rcases List.mem_append.mp hmem with hconf | hclaim
    · exact orderly_configure r hconf
    · obtain rfl := List.mem_singleton.mp hclaim
      have hclear : ∀ k : Fin 4, sourceBit configured.intCtrl.claimed
          (configured.intCtrl.claim k).toNat = false := by decide
      refine ⟨fun k _ _ => hclear k, ?_⟩
      rintro source ⟨_, _, _, ⟨⟩, -⟩
  · obtain rfl := List.mem_singleton.mp hlast
    constructor
    · rintro k ⟨_, _, ⟨⟩, -⟩
    · rintro source ⟨_, _, _, ⟨⟩, -⟩
      exact ⟨by decide, fun _ => .inl (by decide)⟩

/-- Two contexts latch one source, and both are handed it. -/
theorem claim_handed_out_twice : ∃ trace last, PlicRun trace last ∧ ¬ClaimLifecycle trace := by
  have h₁ := run_configure.next claim0 (by decide)
  refine ⟨_, _, h₁.next claim1 (by decide), fun h => ?_⟩
  have hfirst : (plicRecord claim0 configured).Claims 1 :=
    ⟨⟨0, _, _, rfl, by decide⟩, _, rfl⟩
  have hsecond : (plicRecord claim1 (claim0.next configured)).Claims 1 :=
    ⟨⟨1, _, _, rfl, by decide⟩, _, rfl⟩
  exact (claimLifecycle_snoc.mp h).2.1 1 (by decide) hsecond (claimed_snoc.mpr (.inl hfirst))

end MEmu
