import MEmu.ClaimComplete

/-!
# Thresholds of the interrupt controller

A threshold is to mask the sources of its level and below.  `get_int` lets a source
through whose priority is the threshold.  So a run keeps to its thresholds exactly where
at each update every waiting source on a threshold has a waiting source above it.
-/

namespace MEmu

open Run (Sat)
open Trace (Each each_nil each_snoc)

/-! ## The loop of `get_int` -/

namespace RVPLICtrl

variable {nr_source nr_context : Nat} {c : RVPLICtrl nr_source nr_context} {k : Fin nr_context}

/-- A source that is pending, enabled for the context and not claimed. -/
def waiting (c : RVPLICtrl nr_source nr_context) (k : Fin nr_context) (i : Fin (nr_source + 1)) :
    Bool :=
  sourceBit c.pending i && sourceBit (c.enable k) i && !sourceBit c.claimed i

/-- The latch that `get_int` leaves. -/
def latchOf (c : RVPLICtrl nr_source nr_context) (k : Fin nr_context) : BitVec 32 :=
  if (c.maxPriorityInt k).2 ≠ 0 then (c.maxPriorityInt k).2.setWidth 32 else 0

theorem eligible_iff (i : Fin (nr_source + 1)) :
    c.eligible k i = true ↔ c.threshold k ≤ c.priority i ∧ c.waiting k i = true := by
  simp only [eligible, waiting, Bool.and_eq_true, decide_eq_true_eq, and_assoc]

/-- The state of the loop after the sources `seen`: no eligible one has a priority, or one of
them has the greatest. -/
inductive Best (c : RVPLICtrl nr_source nr_context) (k : Fin nr_context)
    (seen : List (Fin (nr_source + 1))) : Word × Word → Prop where
  | none (h : ∀ j ∈ seen, c.eligible k j = true → c.priority j = 0) : Best c k seen (0, 0)
  | some (i : Fin (nr_source + 1)) (hi : i ∈ seen) (helig : c.eligible k i = true)
      (hpos : 0 < c.priority i)
      (h : ∀ j ∈ seen, c.eligible k j = true → c.priority j ≤ c.priority i) :
      Best c k seen ((c.priority i).setWidth 64, BitVec.ofNat 64 i)

theorem lt_setWidth (x y : BitVec 32) : x.setWidth 64 < y.setWidth 64 ↔ x < y := by
  have hx : x.toNat < 2 ^ 64 := x.isLt.trans (by decide)
  have hy : y.toNat < 2 ^ 64 := y.isLt.trans (by decide)
  rw [BitVec.lt_def, BitVec.lt_def, BitVec.toNat_setWidth, BitVec.toNat_setWidth,
    Nat.mod_eq_of_lt hx, Nat.mod_eq_of_lt hy]

/-- One turn of the loop. -/
theorem Best.snoc {seen : List (Fin (nr_source + 1))} {best : Word × Word}
    (h : Best c k seen best) (j : Fin (nr_source + 1)) :
    Best c k (seen ++ [j]) (c.bestOf k best j) := by
  have hmem {P : Fin (nr_source + 1) → Prop} (hseen : ∀ i ∈ seen, P i) (hj : P j) :
      ∀ i ∈ seen ++ [j], P i :=
    List.forall_mem_append.mpr ⟨hseen, List.forall_mem_singleton.mpr hj⟩
  unfold bestOf
  cases helig : c.eligible k j with
  | false =>
      rw [if_neg Bool.false_ne_true]
      have hno : ¬c.eligible k j = true := by rw [helig]; exact Bool.false_ne_true
      cases h with
      | none h => exact .none (hmem h fun h => absurd h hno)
      | some i hi hei hpos h =>
          exact .some i (List.mem_append_left _ hi) hei hpos (hmem h fun h => absurd h hno)
  | true =>
      rw [if_pos rfl]
      have hlast : j ∈ seen ++ [j] := List.mem_append_right _ (List.mem_singleton.mpr rfl)
      cases h with
      | none h =>
          have hzero : (0 : Word) < (c.priority j).setWidth 64 ↔ 0 < c.priority j :=
            lt_setWidth 0 (c.priority j)
          split
          · next hlt =>
              rw [hzero] at hlt
              refine .some j hlast helig hlt (hmem (fun i hi he => ?_) fun _ => BitVec.le_refl _)
              rw [h i hi he]
              exact BitVec.le_of_lt hlt
          · next hnot =>
              rw [hzero] at hnot
              exact .none (hmem h fun _ => BitVec.eq_of_toNat_eq (Nat.eq_zero_of_not_pos hnot))
      | some i hi hei hpos h =>
          split
          · next hlt =>
              rw [lt_setWidth] at hlt
              refine .some j hlast helig (BitVec.lt_trans hpos hlt)
                (hmem (fun i' hi' he => ?_) fun _ => BitVec.le_refl _)
              exact BitVec.le_trans (h i' hi' he) (BitVec.le_of_lt hlt)
          · next hnot =>
              rw [lt_setWidth, BitVec.not_lt] at hnot
              exact .some i (List.mem_append_left _ hi) hei hpos (hmem h fun _ => hnot)

theorem foldl_best (l : List (Fin (nr_source + 1))) :
    Best c k l (l.foldl (c.bestOf k) (0, 0)) := by
  induction l using List.reverseRecOn with
  | nil => exact .none (List.forall_mem_nil _)
  | append_singleton l j ih =>
      rw [List.foldl_append]
      exact ih.snoc j

theorem mem_sources {i : Fin (nr_source + 1)} :
    i ∈ (List.finRange nr_source).map Fin.succ ↔ i ≠ 0 := by
  rw [List.mem_map]
  constructor
  · rintro ⟨j, -, rfl⟩
    exact Fin.succ_ne_zero j
  · intro hi
    exact ⟨i.pred hi, List.mem_finRange _, Fin.succ_pred i hi⟩

/-- What the latch holds: no source where no eligible one has a priority, or an eligible one
with the greatest priority. -/
theorem latchOf_cases (hn : nr_source < 2 ^ 32) (k : Fin nr_context) :
    (c.latchOf k = 0 ∧ ∀ j ≠ 0, c.eligible k j = true → c.priority j = 0) ∨
    ∃ i ≠ 0, (c.latchOf k).toNat = i.val ∧ c.eligible k i = true ∧ 0 < c.priority i ∧
      ∀ j ≠ 0, c.eligible k j = true → c.priority j ≤ c.priority i := by
  have hbest : Best c k _ (c.maxPriorityInt k) := foldl_best _
  unfold latchOf
  generalize c.maxPriorityInt k = best at hbest ⊢
  cases hbest with
  | none h => exact .inl ⟨rfl, fun j hj => h j (mem_sources.mpr hj)⟩
  | some i hi helig hpos h =>
      have hi0 : i ≠ 0 := mem_sources.mp hi
      have hval : (BitVec.ofNat 64 i.val).toNat = i.val := by
        rw [BitVec.toNat_ofNat]
        exact Nat.mod_eq_of_lt (by omega)
      refine .inr ⟨i, hi0, ?_, helig, hpos, fun j hj => h j (mem_sources.mpr hj)⟩
      rw [if_pos, BitVec.toNat_setWidth, hval]
      · exact Nat.mod_eq_of_lt (by omega)
      · intro hz
        have hzero : i.val = 0 := by
          rw [← hval]
          exact congrArg BitVec.toNat hz
        exact hi0 (Fin.ext hzero)

/-- The source in the latch has a priority above the threshold exactly where a waiting source
on the threshold has one above it beside it. -/
theorem latch_above_iff (hn : nr_source < 2 ^ 32) (k : Fin nr_context) :
    (c.latchOf k ≠ 0 →
      ∃ i : Fin (nr_source + 1), i.val = (c.latchOf k).toNat ∧ c.threshold k < c.priority i) ↔
    (c.threshold k ≠ 0 → ∀ i ≠ 0, c.waiting k i = true → c.priority i = c.threshold k →
      ∃ j ≠ 0, c.waiting k j = true ∧ c.threshold k < c.priority j) := by
  have helig {i : Fin (nr_source + 1)} (hw : c.waiting k i = true)
      (hle : c.threshold k ≤ c.priority i) : c.eligible k i = true :=
    (eligible_iff i).mpr ⟨hle, hw⟩
  rcases latchOf_cases (c := c) hn k with ⟨hzero, hall⟩ | ⟨i, hi0, hval, hei, hpos, hmax⟩
  · refine iff_of_true (fun h => absurd hzero h) fun hth i hi0 hw hprio => ?_
    have hz := hall i hi0 (helig hw (hprio ▸ BitVec.le_refl _))
    exact absurd (hprio.symm.trans hz) hth
  · have hne : c.latchOf k ≠ 0 := by
      intro hz
      rw [hz] at hval
      exact hi0 (Fin.ext hval.symm)
    have hsame {j : Fin (nr_source + 1)} (hj : j.val = (c.latchOf k).toNat) : j = i :=
      Fin.ext (hj.trans hval)
    obtain ⟨hle, hwait⟩ := (eligible_iff i).mp hei
    constructor
    · intro h _ _ _ _ _
      obtain ⟨j, hj, hlt⟩ := h hne
      obtain rfl := hsame hj
      exact ⟨j, hi0, hwait, hlt⟩
    · intro h _
      refine ⟨i, hval.symm, ?_⟩
      by_contra hnot
      have heq : c.priority i = c.threshold k :=
        BitVec.le_antisymm (BitVec.not_lt.mp hnot) hle
      have hth : c.threshold k ≠ 0 := by
        intro hz
        rw [heq, hz] at hpos
        exact BitVec.lt_irrefl _ hpos
      obtain ⟨j, hj0, hwj, hlt⟩ := h hth i hi0 hwait heq
      exact hnot (Nat.lt_of_lt_of_le hlt (hmax j hj0 (helig hwj (BitVec.le_of_lt hlt))))

/-- `get_int` of a context leaves its latch and returns whether there is a source in it. -/
theorem getInt_latch (k : Fin nr_context) :
    Sat c (getInt k.val)
      (fun b c' => b = (c.latchOf k != 0) ∧
        c' = { c with claim := Function.update c.claim k (c.latchOf k) }) (fun _ _ => False) := by
  rw [getInt, index_val, pure_bind]
  exact .bind (.get (.bind (.set (.pure ⟨rfl, rfl⟩))))

/-- `update_ext` of a source in the words of the source bits sets its pending bit. -/
theorem updateExt_pending {source_id : BitVec 32} {fired : Bool} :
    Sat c (updateExt source_id fired)
      (fun _ c' => (fired = true → source_id.toNat / 32 < sourceWords nr_source) ∧
        ∃ pending, c' = { c with pending := pending } ∧ ∀ i, sourceBit pending i = true ↔
          sourceBit c.pending i = true ∨ source_id.toNat = i ∧ fired = true)
      (fun _ _ => fired = true ∧ sourceWords nr_source ≤ source_id.toNat / 32) := by
  unfold updateExt
  cases fired with
  | false =>
      refine .pure ⟨fun h => absurd h Bool.false_ne_true, c.pending, rfl, fun i => ?_⟩
      simp
  | true =>
      refine .bind (index_sat (fun w hw => .modify ?_) fun hout => ⟨rfl, hout⟩)
      refine ⟨fun _ => hw ▸ w.isLt, _, rfl, fun i => ?_⟩
      rw [sourceBit_setSource hw]
      by_cases hi : i = source_id.toNat
      · simp [hi]
      · simp [hi, Ne.symm hi]

end RVPLICtrl

/-! ## One update -/

namespace CemuPlicAdapter

variable {a : CemuPlicAdapter}

/-- The interrupt line that a context drives. -/
def line (a : CemuPlicAdapter) : Fin 4 → Bool
  | 0 => a.core0IntStatus.meip
  | 1 => a.core0IntStatus.seip
  | 2 => a.core1IntStatus.meip
  | 3 => a.core1IntStatus.seip

/-- The numbers of the devices that fire are in the words of the source bits. -/
def InWords (irq : DevHandle → Bool) (devs : List (BitVec 32 × DevHandle)) : Prop :=
  ∀ it ∈ devs, irq it.2 = true → it.1.toNat < 32

/-- Source `i` is pending once the lines of the devices are looked at. -/
def Pends (a : CemuPlicAdapter) (irq : DevHandle → Bool) (i : Nat) : Prop :=
  sourceBit a.intCtrl.pending i = true ∨ ∃ it ∈ a.intDevMap, it.1.toNat = i ∧ irq it.2 = true

theorem updateDevs_pending (irq : DevHandle → Bool) (devs : List (BitVec 32 × DevHandle)) :
    Sat a (updateDevs irq devs)
      (fun _ a' => InWords irq devs ∧ ∃ pending, a' = { a with intCtrl.pending := pending } ∧
        ∀ i, sourceBit pending i = true ↔ sourceBit a.intCtrl.pending i = true ∨
          ∃ it ∈ devs, it.1.toNat = i ∧ irq it.2 = true)
      (fun _ _ => ¬InWords irq devs) := by
  induction devs generalizing a with
  | nil =>
      refine .pure ⟨List.forall_mem_nil _, a.intCtrl.pending, rfl, fun i => ?_⟩
      simp
  | cons it rest ih =>
      refine .bind (onCtrl_sat (RVPLICtrl.updateExt_pending.mono ?_ ?_))
      · rintro _ _ ⟨hin, pending, rfl, hpending⟩
        refine ih.mono ?_ ?_
        · rintro _ _ ⟨hrest, pending', rfl, hpending'⟩
          refine ⟨List.forall_mem_cons.mpr ⟨fun hirq => ?_, hrest⟩, pending', rfl, fun i => ?_⟩
          · have hword := hin hirq
            have hone : sourceWords 4 = 1 := rfl
            omega
          · rw [hpending' i]
            show sourceBit pending i = true ∨ _ ↔ _
            rw [hpending i, or_assoc, List.exists_mem_cons_iff]
        · intro _ _ hrest hall
          exact hrest fun it' hit' => hall it' (List.mem_cons_of_mem _ hit')
      · rintro _ _ ⟨hirq, hout⟩ hall
        have hlt := hall it List.mem_cons_self hirq
        have hone : sourceWords 4 = 1 := rfl
        omega

/-- An update leaves in each latch what the controller then finds, and raises the line of a
context where there is a source in its latch. -/
theorem updateIntState_latch (irq : DevHandle → Bool) :
    Sat a (updateIntState irq)
      (fun _ a' => InWords irq a.intDevMap ∧ ∃ pending,
        (∀ i, sourceBit pending i = true ↔ a.Pends irq i) ∧
        a'.intCtrl = { a.intCtrl with
          pending := pending
          claim := RVPLICtrl.latchOf { a.intCtrl with pending := pending } } ∧
        ∀ k, a'.line k = (a'.intCtrl.claim k != 0))
      (fun _ _ => ¬InWords irq a.intDevMap) := by
  refine .bind (.get (.bind ((updateDevs_pending irq a.intDevMap).mono ?_ fun _ _ h => h)))
  rintro _ _ ⟨hin, pending, rfl, hpending⟩
  refine .bind (onCtrl_sat ((RVPLICtrl.getInt_latch 0).mono ?_ fun _ _ => False.elim))
  rintro _ _ ⟨rfl, rfl⟩
  refine .bind (.modify (.bind (onCtrl_sat
    ((RVPLICtrl.getInt_latch 1).mono ?_ fun _ _ => False.elim))))
  rintro _ _ ⟨rfl, rfl⟩
  refine .bind (.modify (.bind (onCtrl_sat
    ((RVPLICtrl.getInt_latch 2).mono ?_ fun _ _ => False.elim))))
  rintro _ _ ⟨rfl, rfl⟩
  refine .bind (.modify (.bind (onCtrl_sat
    ((RVPLICtrl.getInt_latch 3).mono ?_ fun _ _ => False.elim))))
  rintro _ _ ⟨rfl, rfl⟩
  refine .bind (.modify (.pure ⟨hin, pending, hpending, ?_, ?_⟩))
  · refine congrArg (fun claim => { a.intCtrl with pending := pending, claim := claim }) ?_
    funext k
    match k with
    | 0 | 1 | 2 | 3 => rfl
  · intro k
    match k with
    | 0 | 1 | 2 | 3 => rfl

/-- The priority of the source is above the threshold of the context. -/
def Above (a : CemuPlicAdapter) (k : Fin 4) (source : BitVec 32) : Prop :=
  ∃ i : Fin 5, i.val = source.toNat ∧ a.intCtrl.threshold k < a.intCtrl.priority i

/-- Source `i` is pending once the lines of the devices are looked at, enabled for the context
and not claimed. -/
def Waits (a : CemuPlicAdapter) (irq : DevHandle → Bool) (k : Fin 4) (i : Fin 5) : Prop :=
  a.Pends irq i ∧ sourceBit (a.intCtrl.enable k) i = true ∧
    sourceBit a.intCtrl.claimed i = false

/-- Beside every source that waits on a threshold, one waits above it. -/
def Decides (a : CemuPlicAdapter) (irq : DevHandle → Bool) : Prop :=
  ∀ k, a.intCtrl.threshold k ≠ 0 → ∀ i ≠ 0, a.Waits irq k i →
    a.intCtrl.priority i = a.intCtrl.threshold k →
      ∃ j ≠ 0, a.Waits irq k j ∧ a.intCtrl.threshold k < a.intCtrl.priority j

/-- After an update the source of every raised line is above the threshold exactly where the
update finds one above each threshold that one waits on. -/
theorem updateIntState_decides (irq : DevHandle → Bool) :
    Sat a (updateIntState irq)
      (fun _ a' => InWords irq a.intDevMap ∧
        ((∀ k, a'.line k = true → a'.Above k (a'.intCtrl.claim k)) ↔ a.Decides irq))
      (fun _ _ => ¬InWords irq a.intDevMap) := by
  refine (updateIntState_latch irq).mono ?_ fun _ _ h => h
  rintro _ a' ⟨hin, pending, hpending, hctrl, hline⟩
  refine ⟨hin, forall_congr' fun k => ?_⟩
  have hwaits (i : Fin 5) :
      RVPLICtrl.waiting { a.intCtrl with pending := pending } k i = true ↔ a.Waits irq k i := by
    simp only [RVPLICtrl.waiting, Waits, Bool.and_eq_true, Bool.not_eq_true', hpending, and_assoc]
  have habove := RVPLICtrl.latch_above_iff (c := { a.intCtrl with pending := pending })
    (by decide) k
  simp only [hwaits] at habove
  rw [hline k, bne_iff_ne]
  unfold Above
  rw [hctrl]
  exact habove

/-- Only an update changes a latch. -/
theorem call_keeps_claim {op : PlicOp} (hop : ∀ irq, op ≠ .update irq) :
    Sat a op.call (fun _ a' => a'.intCtrl.claim = a.intCtrl.claim) (fun _ _ => True) := by
  cases op with
  | update irq => exact absurd rfl (hop irq)
  | register int_id dev =>
      refine .bind (.bind (.get ?_))
      exact .ite (fun _ => .pure (.pure rfl)) fun _ => .bind (.set (.pure (.pure rfl)))
  | unregister int_id =>
      refine .bind (.bind (.get ?_))
      exact .ite (fun _ => .bind (.set (.pure (.pure rfl)))) fun _ => .pure (.pure rfl)
  | read begin_addr size buffer =>
      refine .bind (.bind (.get (.ite (fun _ => ?_) fun _ => .throw trivial)))
      refine .bind (onCtrl_sat ?_)
      cases hctx : RVPLICtrl.claimContext 4 begin_addr size with
      | none =>
          refine (RVPLICtrl.doRead_other hctx buffer).mono ?_ fun _ _ _ => trivial
          rintro _ _ rfl
          exact .pure (.pure rfl)
      | some context_id =>
          by_cases hsize : size = 4
          · subst hsize
            rw [RVPLICtrl.doRead_claim hctx]
            refine .bind (.get (.bind (RVPLICtrl.index_sat (fun k _ => ?_) fun _ => trivial)))
            refine .bind (RVPLICtrl.index_sat (fun i _ => ?_) fun _ => trivial)
            exact .bind (.set (.pure (.pure (.pure rfl))))
          · rw [RVPLICtrl.doRead, if_pos hsize]
            exact .throw trivial
  | write begin_addr size buffer =>
      refine .bind (.bind (.get (.ite (fun _ => ?_) fun _ => .throw trivial)))
      refine .bind (onCtrl_sat ?_)
      cases hctx : RVPLICtrl.claimContext 4 begin_addr size with
      | none =>
          refine (RVPLICtrl.doWrite_other hctx buffer).mono ?_ fun _ _ _ => trivial
          rintro _ c ⟨-, -, hclaim⟩
          exact .pure (.pure hclaim)
      | some context_id =>
          rw [RVPLICtrl.doWrite_complete hctx]
          refine .bind (.get (.bind (RVPLICtrl.index_sat (fun i _ => ?_) fun _ => trivial)))
          exact .bind (.set (.pure (.pure (.pure rfl))))

end CemuPlicAdapter

/-! ## Runs -/

/-- The adapter after an update that returned. -/
def PlicRecord.updated (r : PlicRecord) : Option CemuPlicAdapter :=
  match r.op with
  | .update _ => r.result.map Prod.snd
  | _ => none

/-- The adapter after the last update. -/
def lastUpdate (trace : List PlicRecord) : Option CemuPlicAdapter :=
  trace.reverse.findSome? PlicRecord.updated

/-- The thresholds mask. -/
structure Masked (trace : List PlicRecord) : Prop where
  /-- After an update the source of a raised line is above the threshold of its context. -/
  lines : ∀ r ∈ trace, ∀ u, r.updated = some u →
    ∀ k, u.line k = true → u.Above k (u.intCtrl.claim k)
  /-- A claim read returns a source that was above the threshold at the last update. -/
  claims : Each (fun pre r => ∀ (k : Fin 4) (source : BitVec 32) (after : CemuPlicAdapter),
    r.IsClaimRead k → r.result = some (some source, after) → source ≠ 0 →
      ∃ u, lastUpdate pre = some u ∧ u.Above k source) trace

/-- An update whose devices fire inside the words of the source bits finds, beside every
source that waits on a threshold, one above it. -/
def PlicRecord.Decisive (r : PlicRecord) : Prop :=
  ∀ irq, r.op = .update irq → CemuPlicAdapter.InWords irq r.before.intDevMap →
    r.before.Decides irq

section Runs

variable {trace : List PlicRecord} {a : CemuPlicAdapter}

theorem lastUpdate_snoc (trace : List PlicRecord) (r : PlicRecord) :
    lastUpdate (trace ++ [r]) = r.updated.or (lastUpdate trace) := by
  simp only [lastUpdate, List.reverse_append, List.reverse_singleton, List.singleton_append,
    List.findSome?_cons]
  cases r.updated <;> rfl

theorem mem_of_lastUpdate {u : CemuPlicAdapter} (h : lastUpdate trace = some u) :
    ∃ r ∈ trace, r.updated = some u := by
  obtain ⟨r, hr, hu⟩ := List.exists_of_findSome?_eq_some h
  exact ⟨r, List.mem_reverse.mp hr, hu⟩

theorem masked_snoc {r : PlicRecord} :
    Masked (trace ++ [r]) ↔ Masked trace ∧
      (∀ u, r.updated = some u → ∀ k, u.line k = true → u.Above k (u.intCtrl.claim k)) ∧
      ∀ (k : Fin 4) (source : BitVec 32) (after : CemuPlicAdapter), r.IsClaimRead k →
        r.result = some (some source, after) → source ≠ 0 →
          ∃ u, lastUpdate trace = some u ∧ u.Above k source := by
  constructor
  · rintro ⟨hlines, hclaims⟩
    obtain ⟨hl, hlr⟩ := List.forall_mem_append.mp hlines
    obtain ⟨hc, hcr⟩ := each_snoc.mp hclaims
    exact ⟨⟨hl, hc⟩, hlr r (List.mem_singleton.mpr rfl), hcr⟩
  · rintro ⟨⟨hl, hc⟩, hlr, hcr⟩
    exact ⟨List.forall_mem_append.mpr ⟨hl, List.forall_mem_singleton.mpr hlr⟩,
      each_snoc.mpr ⟨hc, hcr⟩⟩

theorem plicRecord_ok_run {op : PlicOp} {out : Option (BitVec 32)} {after : CemuPlicAdapter}
    (h : (plicRecord op a).result = some (out, after)) : op.call.run a = .ok out after := by
  unfold plicRecord at h
  cases hr : op.call.run a with
  | ok out' after' =>
      rw [hr] at h
      cases h
      rfl
  | error e a' =>
      rw [hr] at h
      cases h

/-- What the last update has left: latches, empty before the first one. -/
structure LatchInv (trace : List PlicRecord) (a : CemuPlicAdapter) : Prop where
  fresh : lastUpdate trace = none → ∀ k, a.intCtrl.claim k = 0
  latched : ∀ u, lastUpdate trace = some u → a.intCtrl.claim = u.intCtrl.claim ∧
    ∀ k, u.line k = (u.intCtrl.claim k != 0)

theorem PlicRun.latchInv {last : Option CemuPlicAdapter} (hr : PlicRun trace last)
    (hlast : last = some a) : LatchInv trace a := by
  induction hr generalizing a with
  | new core0 core1 =>
      cases hlast
      exact ⟨fun _ _ => rfl, fun u hu => by cases hu⟩
  | @step trace b hr op ih =>
      obtain ⟨⟨out, after⟩, hresult, rfl⟩ := Option.map_eq_some_iff.mp hlast
      have hrun := plicRecord_ok_run hresult
      by_cases hop : ∃ irq, op = .update irq
      · obtain ⟨irq, rfl⟩ := hop
        have hcall : Sat b (PlicOp.update irq).call
            (fun _ a' => ∀ k, a'.line k = (a'.intCtrl.claim k != 0)) (fun _ _ => True) := by
          refine .bind ((CemuPlicAdapter.updateIntState_latch irq).mono ?_ fun _ _ _ => trivial)
          rintro _ a' ⟨-, pending, -, -, hline⟩
          exact .pure hline
        have hupdated : lastUpdate (trace ++ [plicRecord (.update irq) b]) = some after := by
          rw [lastUpdate_snoc]
          show ((plicRecord (.update irq) b).result.map Prod.snd).or _ = _
          rw [hresult]
          rfl
        refine ⟨fun h => ?_, fun u hu => ?_⟩
        · rw [hupdated] at h
          cases h
        · rw [hupdated] at hu
          cases hu
          exact ⟨rfl, hcall.ok hrun⟩
      · have hop : ∀ irq, op ≠ .update irq := fun irq h => hop ⟨irq, h⟩
        have hclaim := (CemuPlicAdapter.call_keeps_claim hop).ok hrun
        have hsame : lastUpdate (trace ++ [plicRecord op b]) = lastUpdate trace := by
          rw [lastUpdate_snoc]
          cases op with
          | update irq => exact absurd rfl (hop irq)
          | _ => rfl
        obtain ⟨hfresh, hlatched⟩ := ih rfl
        refine ⟨fun h k => ?_, fun u hu => ?_⟩
        · show after.intCtrl.claim k = 0
          rw [hclaim]
          exact hfresh (hsame ▸ h) k
        · obtain ⟨hu₁, hu₂⟩ := hlatched u (hsame ▸ hu)
          exact ⟨hclaim.trans hu₁, hu₂⟩

/-- A claim read hands out the latch. -/
theorem claimRead_source (hr : PlicRun trace (some a)) (op : PlicOp) {k : Fin 4}
    {source : BitVec 32} {after : CemuPlicAdapter} (hread : (plicRecord op a).IsClaimRead k)
    (hresult : (plicRecord op a).result = some (some source, after)) :
    source = a.intCtrl.claim k := by
  cases plicStep op (hr.inv rfl).latch with
  | claim k' hk' _ hres =>
      obtain rfl : k = k' := Fin.ext ((hk' k).mp hread)
      rw [hres] at hresult
      cases hresult
      rfl
  | complete source' _ hno _ _ => exact absurd hread (hno k)
  | other hno _ _ _ => exact absurd hread (hno k)

theorem update_decisive (irq : DevHandle → Bool) (a : CemuPlicAdapter) :
    (∀ u, (plicRecord (.update irq) a).updated = some u →
        ∀ k, u.line k = true → u.Above k (u.intCtrl.claim k)) ↔
      (plicRecord (.update irq) a).Decisive := by
  have hcall : Sat a (PlicOp.update irq).call
      (fun _ a' => CemuPlicAdapter.InWords irq a.intDevMap ∧
        ((∀ k, a'.line k = true → a'.Above k (a'.intCtrl.claim k)) ↔ a.Decides irq))
      (fun _ _ => ¬CemuPlicAdapter.InWords irq a.intDevMap) :=
    .bind ((CemuPlicAdapter.updateIntState_decides irq).mono (fun _ _ h => .pure h)
      fun _ _ h => h)
  cases hrun : (PlicOp.update irq).call.run a with
  | ok out after =>
      obtain ⟨hin, hiff⟩ := hcall.ok hrun
      have hupdated : (plicRecord (.update irq) a).updated = some after := by
        show (plicRecord (.update irq) a).result.map Prod.snd = _
        rw [plicRecord, hrun]
        rfl
      constructor
      · rintro h irq' ⟨⟩ -
        exact hiff.mp (h after hupdated)
      · intro h u hu
        rw [hupdated] at hu
        cases hu
        exact hiff.mpr (h irq rfl hin)
  | error e after =>
      have hout := hcall.error hrun
      have hupdated : (plicRecord (.update irq) a).updated = none := by
        show (plicRecord (.update irq) a).result.map Prod.snd = _
        rw [plicRecord, hrun]
        rfl
      refine iff_of_true (fun u hu => ?_) ?_
      · rw [hupdated] at hu
        cases hu
      · rintro irq' ⟨⟩ hin
        exact absurd hin hout

/-- A run keeps to its thresholds exactly where each update is decisive. -/
theorem masked_iff_decisive {last : Option CemuPlicAdapter} (hr : PlicRun trace last) :
    Masked trace ↔ ∀ r ∈ trace, r.Decisive := by
  induction hr with
  | new core0 core1 =>
      exact iff_of_true ⟨List.forall_mem_nil _, each_nil⟩ (List.forall_mem_nil _)
  | @step trace a hr op ih =>
      have hclaims (hmasked : Masked trace) (k : Fin 4) (source : BitVec 32)
          (after : CemuPlicAdapter) (hread : (plicRecord op a).IsClaimRead k)
          (hresult : (plicRecord op a).result = some (some source, after)) (hne : source ≠ 0) :
          ∃ u, lastUpdate trace = some u ∧ u.Above k source := by
        obtain rfl := claimRead_source hr op hread hresult
        obtain ⟨hfresh, hlatched⟩ := hr.latchInv rfl
        cases hu : lastUpdate trace with
        | none => exact absurd (hfresh hu k) hne
        | some u =>
            obtain ⟨hclaim, hline⟩ := hlatched u hu
            obtain ⟨r, hmem, hr⟩ := mem_of_lastUpdate hu
            rw [hclaim] at hne ⊢
            refine ⟨u, rfl, hmasked.lines r hmem u hr k ?_⟩
            rw [hline k]
            exact bne_iff_ne.mpr hne
      have hlines : (∀ u, (plicRecord op a).updated = some u →
          ∀ k, u.line k = true → u.Above k (u.intCtrl.claim k)) ↔
            (plicRecord op a).Decisive := by
        cases op with
        | update irq => exact update_decisive irq a
        | _ => exact iff_of_true (fun u hu => by cases hu) (fun irq h => by cases h)
      rw [masked_snoc, ih, List.forall_mem_append, List.forall_mem_singleton, hlines, ← ih]
      exact ⟨fun h => ⟨h.1, h.2.1⟩, fun h => ⟨h.1, h.2, hclaims h.1⟩⟩

end Runs

/-! ## A threshold of 1 and a source of priority 1 -/

/-- The threshold of context 0 is 0 when source 1 fires with priority 1. -/
theorem masked_iff_decisive_zero :
    ∃ trace last, PlicRun trace last ∧ Masked trace ∧ trace.length = 6 := by
  have hr := run_configure.next claim0 (by decide)
  refine ⟨_, _, hr, (masked_iff_decisive hr).mpr fun r hmem => ?_, rfl⟩
  have hzero : ∀ r ∈ recordsFrom (.new default default) configure, ∀ k,
      r.before.intCtrl.threshold k = 0 := by decide
  rcases List.mem_append.mp hmem with hconf | hclaim
  · rintro irq - - k hth
    exact absurd (hzero r hconf k) hth
  · obtain rfl := List.mem_singleton.mp hclaim
    rintro irq ⟨⟩

/-- The operations of `configure` with the threshold of context 0 at 1 before the update. -/
def configureMasked : List PlicOp :=
  [.register 1 0, .write 4 4 1, .write 0x2000 4 2, .write 0x200000 4 1, .update fun _ => true]

/-- The source on the threshold raises the line. -/
theorem threshold_passes_equal : ∃ trace last, PlicRun trace last ∧ ¬Masked trace := by
  refine ⟨_, _, (PlicRun.new default default).records configureMasked (by decide), fun h => ?_⟩
  have hmem : plicRecord (.update fun _ => true)
      (adapterAfter (.new default default) (configureMasked.take 4))
        ∈ [] ++ recordsFrom (.new default default) configureMasked :=
    .tail _ (.tail _ (.tail _ (.tail _ (.head _))))
  obtain ⟨i, hi, hlt⟩ := h.lines _ hmem (adapterAfter (.new default default) configureMasked) rfl 0
    (by decide)
  obtain rfl : i = 1 := Fin.ext hi
  revert hlt
  decide

end MEmu
