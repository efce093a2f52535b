import Mathlib.Data.List.MinMax
import MEmu.Thresholds

/-!
# Arbitration of the interrupt controller

Among the sources that contend for a context, the one to latch is the first of the greatest
priority, which is what `List.argmax` picks from the contenders in their order.  The loop of
`get_int` carries its running maximum as two integers, zero for none, over the packed bits.
-/

namespace MEmu

open Run (Sat)

/-! ## The first maximum of an increasing list -/

section Argmax

variable {α : Type} [LinearOrder α] {l : List α} {f : α → Nat} {m a : α}

theorem le_of_idxOf_le (hl : l.Pairwise (· < ·)) (hm : m ∈ l) (ha : a ∈ l)
    (h : l.idxOf m ≤ l.idxOf a) : m ≤ a := by
  rcases Nat.eq_or_lt_of_le h with heq | hlt
  · exact ((List.idxOf_inj hm).mp heq).le
  · have hm' := List.idxOf_lt_length_iff.mpr hm
    have ha' := List.idxOf_lt_length_iff.mpr ha
    have hrel := List.pairwise_iff_getElem.mp hl _ _ hm' ha' hlt
    rw [List.getElem_idxOf hm', List.getElem_idxOf ha'] at hrel
    exact hrel.le

/-- In an increasing list the first maximum is the least one. -/
theorem argmax_le (hl : l.Pairwise (· < ·)) (hm : l.argmax f = some m) (ha : a ∈ l)
    (h : f m ≤ f a) : m ≤ a :=
  le_of_idxOf_le hl (List.argmax_mem hm) ha (List.index_of_argmax hm ha h)

end Argmax

namespace RVPLICtrl

variable {nr_source nr_context : Nat} {c : RVPLICtrl nr_source nr_context} {k : Fin nr_context}

/-! ## Contenders -/

/-- A source may interrupt a context.  Source 0 stands for none. -/
structure Contends (c : RVPLICtrl nr_source nr_context) (k : Fin nr_context)
    (i : Fin (nr_source + 1)) : Prop where
  source : i ≠ 0
  pending : sourceBit c.pending i = true
  enabled : sourceBit (c.enable k) i = true
  unclaimed : sourceBit c.claimed i = false
  priority : c.priority i ≠ 0
  threshold : c.threshold k ≤ c.priority i

/-- The contender that is to interrupt the context. -/
structure Wins (c : RVPLICtrl nr_source nr_context) (k : Fin nr_context)
    (i : Fin (nr_source + 1)) : Prop where
  contends : c.Contends k i
  greatest : ∀ j, c.Contends k j → c.priority j ≤ c.priority i
  lowest : ∀ j, c.Contends k j → c.priority j = c.priority i → i ≤ j

/-- The test that a turn of the loop amounts to. -/
def contends (c : RVPLICtrl nr_source nr_context) (k : Fin nr_context) (i : Fin (nr_source + 1)) :
    Bool :=
  c.eligible k i && decide (c.priority i ≠ 0)

/-- The sources that contend for the context, in their order. -/
def contenders (c : RVPLICtrl nr_source nr_context) (k : Fin nr_context) :
    List (Fin (nr_source + 1)) :=
  ((List.finRange nr_source).map Fin.succ).filter (c.contends k)

/-- The number that the loop compares. -/
def rank (c : RVPLICtrl nr_source nr_context) (i : Fin (nr_source + 1)) : Nat :=
  (c.priority i).toNat

/-- What `get_int` carries for the best source so far. -/
def carried (c : RVPLICtrl nr_source nr_context) : Option (Fin (nr_source + 1)) → Word × Word
  | none => (0, 0)
  | some i => ((c.priority i).setWidth 64, BitVec.ofNat 64 i)

theorem mem_contenders {i : Fin (nr_source + 1)} : i ∈ c.contenders k ↔ c.Contends k i := by
  simp only [contenders, List.mem_filter, mem_sources, contends, Bool.and_eq_true,
    decide_eq_true_eq, eligible_iff, waiting, Bool.not_eq_true']
  constructor
  · rintro ⟨hi, ⟨hth, ⟨hpend, hen⟩, hun⟩, hprio⟩
    exact ⟨hi, hpend, hen, hun, hprio, hth⟩
  · rintro ⟨hi, hpend, hen, hun, hprio, hth⟩
    exact ⟨hi, ⟨hth, ⟨hpend, hen⟩, hun⟩, hprio⟩

theorem contenders_increasing : (c.contenders k).Pairwise (· < ·) := by
  refine List.Pairwise.filter _ ?_
  rw [List.pairwise_map]
  exact (List.pairwise_lt_finRange nr_source).imp Fin.succ_lt_succ_iff.mpr

/-! ## The loop -/

/-- One turn of the loop keeps the first maximum. -/
theorem bestOf_carried (o : Option (Fin (nr_source + 1))) (j : Fin (nr_source + 1)) :
    c.bestOf k (c.carried o) j
      = if c.contends k j then
          c.carried (match o with
            | none => some j
            | some i => if c.rank i < c.rank j then some j else some i)
        else c.carried o := by
  unfold bestOf contends
  cases c.eligible k j with
  | false => simp
  | true =>
      cases o with
      | none =>
          have hpos : (c.carried none).1 < (c.priority j).setWidth 64 ↔ c.priority j ≠ 0 :=
            (lt_setWidth 0 (c.priority j)).trans (BitVec.pos_iff_ne_zero _)
          simp only [hpos, if_true, Bool.true_and, decide_eq_true_eq]
          rfl
      | some i =>
          have hlt : (c.carried (some i)).1 < (c.priority j).setWidth 64 ↔ c.rank i < c.rank j :=
            lt_setWidth (c.priority i) (c.priority j)
          simp only [hlt, if_true, Bool.true_and, decide_eq_true_eq]
          by_cases hprio : c.priority j = 0
          · have hnot : ¬c.rank i < c.rank j := by
              rw [rank, rank, hprio]
              exact Nat.not_lt_zero _
            rw [if_neg hnot, if_neg (not_not_intro hprio)]
          · rw [if_pos hprio]
            split <;> rfl

/-- The loop over some sources carries the first maximum of the contenders among them. -/
theorem foldl_bestOf (l : List (Fin (nr_source + 1))) :
    l.foldl (c.bestOf k) (0, 0) = c.carried ((l.filter (c.contends k)).argmax c.rank) := by
  induction l using List.reverseRecOn with
  | nil => rfl
  | append_singleton l j ih =>
      rw [List.foldl_append, ih, List.filter_append]
      show c.bestOf k _ j = _
      rw [bestOf_carried]
      cases hj : c.contends k j with
      | false => simp [hj]
      | true =>
          rw [if_pos rfl, List.filter_cons_of_pos hj, List.filter_nil, List.argmax_concat]
          cases (l.filter (c.contends k)).argmax c.rank <;> rfl

theorem maxPriorityInt_eq :
    c.maxPriorityInt k = c.carried ((c.contenders k).argmax c.rank) :=
  foldl_bestOf _

/-- The latch holds the source that wins, or 0 where none contends. -/
theorem latchOf_wins (hn : nr_source < 2 ^ 31) (k : Fin nr_context) :
    (∃ i, c.Wins k i ∧ (c.latchOf k).toNat = i.val) ∨
      (∀ i, ¬c.Contends k i) ∧ c.latchOf k = 0 := by
  unfold latchOf
  rw [maxPriorityInt_eq]
  cases hm : (c.contenders k).argmax c.rank with
  | none =>
      have hnil := List.argmax_eq_none.mp hm
      refine .inr ⟨fun i hi => ?_, rfl⟩
      have hmem := mem_contenders.mpr hi
      rw [hnil] at hmem
      exact List.not_mem_nil hmem
  | some i =>
      have hi := mem_contenders.mp (List.argmax_mem hm)
      refine .inl ⟨i, ⟨hi, fun j hj => ?_, fun j hj heq => ?_⟩, ?_⟩
      · exact List.le_of_mem_argmax (mem_contenders.mpr hj) hm
      · have hle : c.rank i ≤ c.rank j := (congrArg BitVec.toNat heq).ge
        exact argmax_le contenders_increasing hm (mem_contenders.mpr hj) hle
      · have hlt : i.val < 2 ^ 31 + 1 := by omega
        have hval : (BitVec.ofNat 64 i.val).toNat = i.val := by
          rw [BitVec.toNat_ofNat]
          exact Nat.mod_eq_of_lt (by omega)
        have hne : (c.carried (some i)).2 ≠ 0 := by
          intro hz
          have hzero : (BitVec.ofNat 64 i.val).toNat = 0 := congrArg BitVec.toNat hz
          exact hi.source (Fin.ext (hval.symm.trans hzero))
        rw [if_pos hne]
        show (BitVec.setWidth 32 (BitVec.ofNat 64 i.val)).toNat = i.val
        rw [BitVec.toNat_setWidth, hval]
        exact Nat.mod_eq_of_lt (by omega)

/-- `get_int` latches the lowest of the contenders of the greatest priority, 0 where no source
contends, and returns whether one does.  It changes nothing but that latch.  `nr_source` is an
`int`. -/
theorem getInt_arbitrates (hn : nr_source < 2 ^ 31) (c : RVPLICtrl nr_source nr_context)
    (k : Fin nr_context) :
    Sat c (getInt k.val)
      (fun b c' => (b = true ↔ ∃ i, c.Contends k i) ∧
        ∃ latch, c' = { c with claim := Function.update c.claim k latch } ∧
          ((∃ i, c.Wins k i ∧ latch.toNat = i.val) ∨ (∀ i, ¬c.Contends k i) ∧ latch = 0))
      (fun _ _ => False) := by
  refine (getInt_latch k).mono ?_ fun _ _ => False.elim
  rintro _ _ ⟨rfl, rfl⟩
  have hlatch := latchOf_wins (c := c) hn k
  refine ⟨?_, _, rfl, hlatch⟩
  rw [bne_iff_ne]
  rcases hlatch with ⟨i, hwins, hval⟩ | ⟨hnone, hzero⟩
  · refine iff_of_true (fun hz => ?_) ⟨i, hwins.contends⟩
    rw [hz] at hval
    exact hwins.contends.source (Fin.ext hval.symm)
  · exact iff_of_false (not_not_intro hzero) fun ⟨i, hi⟩ => hnone i hi

/-- A controller of 40 sources with the sources 5 and 33 pending and enabled on one priority. -/
def tied : RVPLICtrl 40 2 :=
  { new with
    priority := fun _ => 3
    pending := fun w => if w = 0 then 0x20 else 2
    enable := fun _ _ => 0x22 }

theorem tied_arbitrates :
    Sat tied (getInt 1)
      (fun b c' => (b = true ↔ ∃ i, tied.Contends 1 i) ∧
        ∃ latch, c' = { tied with claim := Function.update tied.claim 1 latch } ∧
          ((∃ i, tied.Wins 1 i ∧ latch.toNat = i.val) ∨ (∀ i, ¬tied.Contends 1 i) ∧ latch = 0))
      (fun _ _ => False) :=
  getInt_arbitrates (by decide) tied 1

end RVPLICtrl

end MEmu
