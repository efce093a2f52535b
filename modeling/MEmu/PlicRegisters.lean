import MEmu.Plic

/-!
# The registers of the interrupt controller

Which register an aligned address names, and what a write of it should do.  `do_read` and
`do_write` stay inside their arrays, and a write changes the register that its address names,
but for four slips: an offset in bytes is the index of an enable word, the context past the
last one has a threshold and a claim register, the pending words are counted in sources, and
any word completes a source.
-/

namespace MEmu

open Run (Sat sat_pure sat_get sat_set sat_bind)

/-- A register of the controller. -/
inductive PlicRegister (nr_source nr_context : Nat) where
  | priority (source : Fin (nr_source + 1))
  | pending (word : Fin (sourceWords nr_source))
  | enable (context_id : Fin nr_context) (word : Fin (sourceWords nr_source))
  | threshold (context_id : Fin nr_context)
  | claim (context_id : Fin nr_context)

/-- The register is the one at the address: a priority for each source from 1, a bit for each
source in the pending words and in those of a context, and a page for each context. -/
def PlicRegister.At {nr_source nr_context : Nat} :
    PlicRegister nr_source nr_context → Nat → Prop
  | priority source, a => a = 4 * source ∧ 0 < a ∧ a < 0x1000
  | pending word, a => a = 0x1000 + 4 * word ∧ a < 0x1080
  | enable context_id word, a =>
      a = 0x2000 + 0x80 * context_id + 4 * word ∧ (word : Nat) < 0x20 ∧ a < 0x200000
  | threshold context_id, a => a = 0x200000 + 0x1000 * context_id
  | claim context_id, a => a = 0x200000 + 0x1000 * context_id + 4

namespace RVPLICtrl

variable {nr_source nr_context : Nat}

/-! ## Reachable controllers -/

/-- An operation on the controller. -/
inductive Op where
  | updateExt (source_id : BitVec 32) (fired : Bool)
  | getInt (context_id : Nat)
  | read (start_addr size : Word) (buffer : BitVec 32)
  | write (start_addr size : Word) (buffer : BitVec 32)

/-- The operation, without what it returns. -/
def Op.call : Op → PlicM nr_source nr_context Unit
  | updateExt source_id fired => RVPLICtrl.updateExt source_id fired
  | getInt context_id => do
      let _ ← RVPLICtrl.getInt context_id
  | read start_addr size buffer => do
      let _ ← doRead start_addr size buffer
  | write start_addr size buffer => do
      let _ ← doWrite start_addr size buffer

/-- The controllers that some operations make of a new one. -/
inductive Reach : RVPLICtrl nr_source nr_context → Prop where
  | new : Reach .new
  | step {c c' : RVPLICtrl nr_source nr_context} (hr : Reach c) (op : Op)
      (hop : op.call.run c = .ok () c') : Reach c'

/-- The latches hold a source or 0. -/
def SourcesLatched (c : RVPLICtrl nr_source nr_context) : Prop :=
  ∀ k, (c.claim k).toNat ≤ nr_source

/-! ## What an access should do -/

/-- The controller after `value` is written to the register: a write of a claim register
completes the source `value`. -/
def written (c : RVPLICtrl nr_source nr_context) (value : BitVec 32) :
    PlicRegister nr_source nr_context → RVPLICtrl nr_source nr_context
  | .priority source => { c with priority := Function.update c.priority source value }
  | .pending _ => c
  | .enable context_id word =>
      { c with
        enable := Function.update c.enable context_id
          (Function.update (c.enable context_id) word value) }
  | .threshold context_id => { c with threshold := Function.update c.threshold context_id value }
  | .claim _ =>
      if h : value.toNat / 32 < sourceWords nr_source then
        { c with
          claimed := clearSource c.claimed ⟨_, h⟩ value
          pending := clearSource c.pending ⟨_, h⟩ value }
      else c

/-- `c'` is `c` but for the register at the address, which `value` is written to. -/
structure Wrote (addr : Word) (value : BitVec 32) (c c' : RVPLICtrl nr_source nr_context) :
    Prop where
  named : ∀ r : PlicRegister nr_source nr_context, r.At addr.toNat → c' = c.written value r
  unnamed : (∀ r : PlicRegister nr_source nr_context, ¬r.At addr.toNat) → c' = c
  /-- The enable word is the one that `get_int` looks into for its sources. -/
  consulted : ∀ context_id word,
    (PlicRegister.enable context_id word : PlicRegister nr_source nr_context).At addr.toNat →
      ∀ i : Nat, i / 32 = word → sourceBit (c'.enable context_id) i = value.getLsbD (i % 32)

/-- The computation takes no index outside its array. -/
def InArrays {α : Type} (c : RVPLICtrl nr_source nr_context) (x : PlicM nr_source nr_context α) :
    Prop :=
  Sat c x (fun _ _ => True) (fun e _ => e ≠ .index)

/-- No index of a read or a write at the address is outside its array, and a write that is
accepted changes only the register at the address. -/
structure Confined (c : RVPLICtrl nr_source nr_context) (addr : Word) (value : BitVec 32) :
    Prop where
  read : ∀ buffer, c.InArrays (doRead addr 4 buffer)
  write : Sat c (doWrite addr 4 value) (fun accepted c' => accepted = true → Wrote addr value c c')
    (fun e _ => e ≠ .index)

/-- The access does not go through one of the slips in the decoding. -/
structure Decoded (c : RVPLICtrl nr_source nr_context) (addr : Word) (value : BitVec 32) :
    Prop where
  /-- A pending word that the index of a source lets through is one of the array. -/
  pending : 0x1000 ≤ addr.toNat → addr.toNat < 0x1080 → (addr.toNat - 0x1000) / 4 ≤ nr_source →
    (addr.toNat - 0x1000) / 4 < sourceWords nr_source
  /-- The offset of an enable word is in the array of words, and is 0 unless the word at the
  offset and the word that is named hold the value already. -/
  enable : 0x2000 ≤ addr.toNat → addr.toNat < 0x200000 → addr.toNat % 0x80 ≤ nr_source →
    ∀ context_id : Fin nr_context, (addr.toNat - 0x2000) / 0x80 = context_id →
      ∃ pos : Fin (sourceWords nr_source), (pos : Nat) = addr.toNat % 0x80 ∧
        ((pos : Nat) = 0 ∨ c.enable context_id pos = value ∧
          ∀ word : Fin (sourceWords nr_source), 4 * (word : Nat) = pos →
            c.enable context_id word = value)
  /-- The page is not the one past that of the last context. -/
  context : 0x200000 ≤ addr.toNat → addr.toNat % 0x1000 = 0 ∨ addr.toNat % 0x1000 = 4 →
    (addr.toNat - 0x200000) / 0x1000 ≠ nr_context
  /-- The word that is completed is a bit of the words of the sources. -/
  complete : 0x200000 ≤ addr.toNat → addr.toNat % 0x1000 = 4 →
    (addr.toNat - 0x200000) / 0x1000 < nr_context → value.toNat / 32 < sourceWords nr_source

/-! ## The latches -/

section Latches

variable {c : RVPLICtrl nr_source nr_context}

/-- A new controller has nothing in its latches. -/
theorem SourcesLatched.new : SourcesLatched (.new : RVPLICtrl nr_source nr_context) :=
  fun _ => Nat.zero_le _

/-- A read marks claimed bits at most. -/
theorem doRead_latch (start_addr size : Word) (buffer : BitVec 32) :
    Sat c (doRead start_addr size buffer) (fun _ c' => c'.claim = c.claim) (fun _ _ => True) := by
  cases h : claimContext nr_context start_addr size with
  | none =>
      refine (doRead_other h buffer).mono ?_ fun _ _ _ => trivial
      rintro _ _ rfl
      rfl
  | some context_id =>
      by_cases hsize : size = 4
      · subst hsize
        rw [doRead_claim h]
        refine .bind (.get (.bind (index_sat (fun k _ => .bind ?_) fun _ => trivial)))
        exact index_sat (fun i _ => .bind (.set (.pure rfl))) fun _ => trivial
      · rw [doRead, if_pos hsize]
        exact .throw trivial

/-- A write leaves the latches as they are. -/
theorem doWrite_latch (start_addr size : Word) (buffer : BitVec 32) :
    Sat c (doWrite start_addr size buffer) (fun _ c' => c'.claim = c.claim) (fun _ _ => True) := by
  cases h : claimContext nr_context start_addr size with
  | none => exact (doWrite_other h buffer).mono (fun _ _ h => h.2.2) fun _ _ _ => trivial
  | some context_id =>
      rw [doWrite_complete h]
      refine .bind (.get (.bind (index_sat (fun i _ => ?_) fun _ => trivial)))
      exact .bind (.set (.pure rfl))

/-- Every call keeps the sources in the latches in range. -/
theorem Op.call_latched (op : Op) (h : c.SourcesLatched) :
    Sat c op.call (fun _ => SourcesLatched) (fun _ _ => True) := by
  cases op with
  | updateExt source_id fired =>
      refine (updateExt_sat source_id fired).mono ?_ fun _ _ _ => trivial
      rintro _ _ ⟨pending, rfl⟩
      exact h
  | getInt context_id =>
      refine (getInt_sat context_id).bind_of ?_
      rintro _ _ ⟨k, latch, hle, rfl⟩ k'
      show (Function.update c.claim k latch k').toNat ≤ nr_source
      rw [Function.update_apply]
      split
      · exact hle
      · exact h k'
  | read start_addr size buffer =>
      refine (doRead_latch start_addr size buffer).bind_of ?_
      intro _ c' hc' k
      rw [hc']
      exact h k
  | write start_addr size buffer =>
      refine (doWrite_latch start_addr size buffer).bind_of ?_
      intro _ c' hc' k
      rw [hc']
      exact h k

/-- In every controller that is reached the latches hold sources. -/
theorem Reach.latched (hr : Reach c) : c.SourcesLatched := by
  induction hr with
  | new => exact .new
  | step hr op hop ih => exact (op.call_latched ih).ok hop

/-- A latch is in the words of the sources. -/
theorem SourcesLatched.word (h : c.SourcesLatched) (k : Fin nr_context) :
    (c.claim k).toNat / 32 < sourceWords nr_source := by
  have hk := h k
  unfold sourceWords
  omega

end Latches

/-! ## One access -/

section Access

variable {c : RVPLICtrl nr_source nr_context} {addr : Word} {value : BitVec 32}

/-- An index is fine below the length, and out of the array from there on. -/
theorem sat_index {n i : Nat} {Q : Fin n → RVPLICtrl nr_source nr_context → Prop}
    {E : PlicAbort → RVPLICtrl nr_source nr_context → Prop} :
    Sat c (index n i) Q E ↔ if h : i < n then Q ⟨i, h⟩ c else E .index c := by
  unfold index
  split
  · rfl
  · rfl

/-- An aligned word ends inside an area exactly where it begins inside it. -/
theorem end_le {b : Word} (ha : addr.toNat % 4 = 0) (htop : addr.toNat + 4 < 2 ^ 64)
    (hb : b.toNat % 4 = 0) : addr + 4 ≤ b ↔ addr.toNat < b.toNat := by
  rw [BitVec.le_def, BitVec.toNat_add, show (4 : Word).toNat = 4 from rfl, Nat.mod_eq_of_lt htop]
  omega

/-- The quotient of the source, as a natural number. -/
theorem page_toNat {base : Word} (stride : Word) (h : base.toNat ≤ addr.toNat) :
    ((addr - base) / stride).toNat = (addr.toNat - base.toNat) / stride.toNat := by
  rw [BitVec.toNat_udiv, BitVec.toNat_sub_of_le (BitVec.le_def.mpr h)]

theorem mod_toNat (d : Word) : (addr % d).toNat = addr.toNat % d.toNat := BitVec.toNat_umod

/-- What the decoding of an aligned address compares. -/
structure Ends (addr : Word) : Prop where
  priority : addr + 4 ≤ 0x1000 ↔ addr.toNat < 0x1000
  pending : addr + 4 ≤ 0x1080 ↔ addr.toNat < 0x1080
  gap : addr + 4 ≤ 0x2000 ↔ addr.toNat < 0x2000
  enable : addr + 4 ≤ 0x200000 ↔ addr.toNat < 0x200000

/-- The ends of an aligned access do not wrap. -/
theorem Ends.of_aligned (ha : addr.toNat % 4 = 0) (htop : addr.toNat + 4 < 2 ^ 64) : Ends addr where
  priority := end_le ha htop rfl
  pending := end_le ha htop rfl
  gap := end_le ha htop rfl
  enable := end_le ha htop rfl

/-- Above the enable bits none of the tests for the lower registers succeeds. -/
theorem Ends.past_gap (he : Ends addr) (hlo : 0x2000 ≤ addr.toNat) :
    ¬addr + 4 ≤ 0x1000 ∧ ¬addr + 4 ≤ 0x1080 ∧ ¬addr + 4 ≤ 0x2000 := by
  rw [he.priority, he.pending, he.gap]
  omega

/-! ### Reads -/

theorem InArrays.pure {α : Type} (r : α) : c.InArrays (pure r) := trivial

/-- A computation that reads the controller first. -/
theorem inArrays_get {α : Type}
    {f : RVPLICtrl nr_source nr_context → PlicM nr_source nr_context α} :
    c.InArrays (get >>= f) ↔ c.InArrays (f c) := sat_bind

/-- A computation that indexes an array first. -/
theorem inArrays_index {n i : Nat} {α : Type} {f : Fin n → PlicM nr_source nr_context α}
    (hf : ∀ k : Fin n, k = i → c.InArrays (f k)) : c.InArrays (index n i >>= f) ↔ i < n := by
  unfold InArrays
  rw [sat_bind, sat_index]
  split
  · exact iff_of_true (hf _ rfl) ‹_›
  · exact iff_of_false (fun h => h rfl) ‹_›

/-- A test that refuses. -/
theorem inArrays_refuse {α : Type} {p q : Prop} [Decidable p] (r : α)
    {x : PlicM nr_source nr_context α} (h : ¬p → (c.InArrays x ↔ q)) :
    c.InArrays (if p then Pure.pure r else x) ↔ (¬p → q) := by
  split
  · exact iff_of_true (.pure r) fun hp => absurd ‹_› hp
  · rw [h ‹_›, forall_prop_of_true ‹_›]

/-- A read of a priority stays in its array. -/
theorem doRead_priority (he : Ends addr) (hhi : addr.toNat < 0x1000) (buffer : BitVec 32) :
    c.InArrays (doRead addr 4 buffer) := by
  have hdiv : (addr / 4).toNat = addr.toNat / 4 := BitVec.toNat_udiv
  rw [doRead, if_neg (not_not_intro rfl), inArrays_get, if_pos (he.priority.mpr hhi), hdiv,
    inArrays_refuse _ fun _ => inArrays_refuse _ fun _ => inArrays_index fun _ _ => .pure _]
  omega

/-- The test of a pending word is against the sources, not against their words. -/
theorem doRead_pending (he : Ends addr) (hlo : 0x1000 ≤ addr.toNat) (hhi : addr.toNat < 0x1080)
    (buffer : BitVec 32) :
    c.InArrays (doRead addr 4 buffer) ↔ ((addr.toNat - 0x1000) / 4 ≤ nr_source →
      (addr.toNat - 0x1000) / 4 < sourceWords nr_source) := by
  have h₁ : ¬addr + 4 ≤ 0x1000 := by rw [he.priority]; omega
  have hidx : ((addr - 0x1000) / 4).toNat = (addr.toNat - 0x1000) / 4 := page_toNat _ hlo
  rw [doRead, if_neg (not_not_intro rfl), inArrays_get, if_neg h₁, if_pos (he.pending.mpr hhi)]
  dsimp only
  rw [hidx, inArrays_refuse _ fun _ => inArrays_index fun _ _ => .pure _, Nat.not_lt]

/-- A read between the pending words and the enable words touches no array. -/
theorem doRead_gap (he : Ends addr) (hlo : 0x1080 ≤ addr.toNat) (hhi : addr.toNat < 0x2000)
    (buffer : BitVec 32) : c.InArrays (doRead addr 4 buffer) := by
  have h₁ : ¬addr + 4 ≤ 0x1000 := by rw [he.priority]; omega
  have h₂ : ¬addr + 4 ≤ 0x1080 := by rw [he.pending]; omega
  rw [doRead, if_neg (not_not_intro rfl), inArrays_get, if_neg h₁, if_neg h₂,
    if_pos (he.gap.mpr hhi)]
  exact .pure _

/-- The test of an enable word is against the sources, too, and takes the byte for the word. -/
theorem doRead_enable (he : Ends addr) (hlo : 0x2000 ≤ addr.toNat) (hhi : addr.toNat < 0x200000)
    (buffer : BitVec 32) :
    c.InArrays (doRead addr 4 buffer) ↔ ((addr.toNat - 0x2000) / 0x80 < nr_context →
      addr.toNat % 0x80 ≤ nr_source → addr.toNat % 0x80 < sourceWords nr_source) := by
  obtain ⟨h₁, h₂, h₃⟩ := he.past_gap hlo
  have hctx : ((addr - 0x2000) / 0x80).toNat = (addr.toNat - 0x2000) / 0x80 := page_toNat _ hlo
  have hpos : (addr % 0x80).toNat = addr.toNat % 0x80 := mod_toNat _
  rw [doRead, if_neg (not_not_intro rfl), inArrays_get, if_neg h₁, if_neg h₂, if_neg h₃,
    if_pos (he.enable.mpr hhi)]
  dsimp only
  rw [hctx, hpos, inArrays_refuse (q := addr.toNat % 0x80 ≤ nr_source →
    addr.toNat % 0x80 < sourceWords nr_source), Nat.not_le]
  intro hlt
  rw [inArrays_refuse (q := addr.toNat % 0x80 < sourceWords nr_source), Nat.not_lt]
  intro _
  lift (addr.toNat - 0x2000) / 0x80 to Fin nr_context using Nat.not_le.mp hlt with k
  rw [index_val, pure_bind]
  exact inArrays_index fun _ _ => .pure _

/-- The test of a context lets the one beyond the last pass. -/
theorem doRead_page (hlatch : c.SourcesLatched) (he : Ends addr) (hlo : 0x200000 ≤ addr.toNat)
    (buffer : BitVec 32) :
    c.InArrays (doRead addr 4 buffer) ↔ (addr.toNat % 0x1000 = 0 ∨ addr.toNat % 0x1000 = 4 →
      (addr.toNat - 0x200000) / 0x1000 ≠ nr_context) := by
  obtain ⟨h₁, h₂, h₃⟩ := he.past_gap (by omega)
  have h₄ : ¬addr + 4 ≤ 0x200000 := by rw [he.enable]; omega
  have hctx : ((addr - 0x200000) / 0x1000).toNat = (addr.toNat - 0x200000) / 0x1000 :=
    page_toNat _ hlo
  rw [doRead, if_neg (not_not_intro rfl), inArrays_get, if_neg h₁, if_neg h₂, if_neg h₃,
    if_neg h₄]
  dsimp only
  rw [hctx, inArrays_refuse (q := addr.toNat % 0x1000 = 0 ∨ addr.toNat % 0x1000 = 4 →
      (addr.toNat - 0x200000) / 0x1000 < nr_context)]
  · constructor
    · intro h hoff heq
      have hlt := h (by omega) hoff
      omega
    · intro h hle hoff
      have hne := h hoff
      omega
  · intro _
    have hzero : addr % 0x1000 = 0 ↔ addr.toNat % 0x1000 = 0 := BitVec.toNat_inj.symm
    have hfour : addr % 0x1000 = 4 ↔ addr.toNat % 0x1000 = 4 := BitVec.toNat_inj.symm
    split
    · rw [inArrays_index fun _ _ => .pure _, forall_prop_of_true (.inl (hzero.mp ‹_›))]
    · rw [← hzero, or_iff_right ‹_›, ← hfour]
      split
      · rw [forall_prop_of_true ‹_›]
        refine inArrays_index fun k _ => ?_
        rw [inArrays_index]
        · exact hlatch.word k
        · exact fun _ _ => trivial
      · exact iff_of_true (.pure _) fun h => absurd h ‹_›

/-! ### Writes -/

/-- The five kinds lie in ranges of their own, and within a range the address is the index. -/
theorem at_unique {a : Nat} {r r' : PlicRegister nr_source nr_context} (h : r.At a) (h' : r'.At a) :
    r' = r := by
  cases r with
  | priority source =>
      cases r' with
      | priority source' =>
          simp only [PlicRegister.At] at h h'
          obtain rfl : source' = source := Fin.ext (by omega)
          rfl
      | _ =>
          simp only [PlicRegister.At] at h h'
          omega
  | pending word =>
      cases r' with
      | pending word' =>
          simp only [PlicRegister.At] at h h'
          obtain rfl : word' = word := Fin.ext (by omega)
          rfl
      | _ =>
          simp only [PlicRegister.At] at h h'
          omega
  | enable context_id word =>
      cases r' with
      | enable context_id' word' =>
          simp only [PlicRegister.At] at h h'
          obtain rfl : context_id' = context_id := Fin.ext (by omega)
          obtain rfl : word' = word := Fin.ext (by omega)
          rfl
      | _ =>
          simp only [PlicRegister.At] at h h'
          omega
  | threshold context_id =>
      cases r' with
      | threshold context_id' =>
          simp only [PlicRegister.At] at h h'
          obtain rfl : context_id' = context_id := Fin.ext (by omega)
          rfl
      | _ =>
          simp only [PlicRegister.At] at h h'
          omega
  | claim context_id =>
      cases r' with
      | claim context_id' =>
          simp only [PlicRegister.At] at h h'
          obtain rfl : context_id' = context_id := Fin.ext (by omega)
          rfl
      | _ =>
          simp only [PlicRegister.At] at h h'
          omega

/-- A write of a register sets it and nothing else. -/
theorem wrote_iff {r : PlicRegister nr_source nr_context} (hr : r.At addr.toNat)
    {c' : RVPLICtrl nr_source nr_context} : Wrote addr value c c' ↔ c' = c.written value r := by
  constructor
  · intro h
    exact h.named r hr
  · intro h
    subst h
    refine ⟨fun r' hr' => ?_, fun hno => absurd hr (hno r), fun k word hr' i hi => ?_⟩
    · rw [at_unique hr hr']
    · obtain rfl := at_unique hr' hr
      show sourceBit (Function.update c.enable k _ k) i = _
      rw [Function.update_self, sourceBit_of_lt _ (hi ▸ word.isLt),
        show (⟨i / 32, hi ▸ word.isLt⟩ : Fin (sourceWords nr_source)) = word from Fin.ext hi,
        Function.update_self]

/-- Two updates with one value agree at one place, or where neither changes anything. -/
theorem update_eq_update_iff {α β : Type} [DecidableEq α] {f : α → β} {i j : α} {v : β} :
    Function.update f i v = Function.update f j v ↔ i = j ∨ f i = v ∧ f j = v := by
  constructor
  · intro h
    by_cases hij : i = j
    · exact .inl hij
    · have hi := congrFun h i
      have hj := congrFun h j
      rw [Function.update_self, Function.update_of_ne hij] at hi
      rw [Function.update_self, Function.update_of_ne (Ne.symm hij)] at hj
      exact .inr ⟨hi.symm, hj⟩
  · rintro (rfl | ⟨hi, hj⟩)
    · rfl
    · rw [← hi, Function.update_eq_self, hi, ← hj, Function.update_eq_self]

/-- An access that is refused or keeps to its register. -/
abbrev Writes (c : RVPLICtrl nr_source nr_context) (addr : Word) (value : BitVec 32) : Prop :=
  Sat c (doWrite addr 4 value) (fun accepted c' => accepted = true → Wrote addr value c c')
    (fun e _ => e ≠ .index)

/-- A write to a priority is the write of the register there. -/
theorem doWrite_priority (he : Ends addr) (ha : addr.toNat % 4 = 0) (hhi : addr.toNat < 0x1000) :
    c.Writes addr value := by
  have hdiv : (addr / 4).toNat = addr.toNat / 4 := BitVec.toNat_udiv
  unfold Writes doWrite
  rw [sat_bind, sat_get, if_pos (he.priority.mpr hhi), hdiv]
  refine .ite (fun _ => nofun) fun hzero => .ite (fun _ => nofun) fun hin => ?_
  have hpos : addr.toNat ≠ 0 := fun h => hzero (BitVec.eq_of_toNat_eq h)
  refine .bind (index_sat (fun k hk => .bind (.set (.pure fun _ => ?_))) fun hout => ?_)
  · exact (wrote_iff (r := .priority k) ⟨by omega, by omega, hhi⟩).mpr rfl
  · omega

/-- A write to a pending word changes nothing. -/
theorem doWrite_pending (he : Ends addr) (hlo : 0x1000 ≤ addr.toNat) (hhi : addr.toNat < 0x1080) :
    c.Writes addr value := by
  have h₁ : ¬addr + 4 ≤ 0x1000 := by rw [he.priority]; omega
  unfold Writes doWrite
  rw [sat_bind, sat_get, if_neg h₁, if_pos (he.pending.mpr hhi)]
  refine .pure fun _ => ⟨fun r hr => ?_, fun _ => rfl, fun k word hr => ?_⟩
  · cases r with
    | pending word => rfl
    | priority source => simp only [PlicRegister.At] at hr; omega
    | enable k word => simp only [PlicRegister.At] at hr; omega
    | threshold k => simp only [PlicRegister.At] at hr; omega
    | claim k => simp only [PlicRegister.At] at hr; omega
  · simp only [PlicRegister.At] at hr
    omega

/-- A write between the pending words and the enable words changes nothing. -/
theorem doWrite_gap (he : Ends addr) (hlo : 0x1080 ≤ addr.toNat) (hhi : addr.toNat < 0x2000) :
    c.Writes addr value := by
  have h₁ : ¬addr + 4 ≤ 0x1000 := by rw [he.priority]; omega
  have h₂ : ¬addr + 4 ≤ 0x1080 := by rw [he.pending]; omega
  unfold Writes doWrite
  rw [sat_bind, sat_get, if_neg h₁, if_neg h₂, if_pos (he.gap.mpr hhi)]
  exact .pure nofun

/-- The word that is written and the one that is named are one, or hold the value already. -/
theorem enable_eq_iff {k : Fin nr_context} {pos word : Fin (sourceWords nr_source)} :
    { c with enable := Function.update c.enable k (Function.update (c.enable k) pos value) }
        = c.written value (.enable k word) ↔
      pos = word ∨ c.enable k pos = value ∧ c.enable k word = value := by
  rw [← update_eq_update_iff, ← (Function.update_injective c.enable k).eq_iff]
  constructor
  · intro h
    exact congrArg RVPLICtrl.enable h
  · intro h
    rw [h]
    rfl

/-- A write to an enable word is right at the first word of a context, or where it changes
nothing. -/
theorem doWrite_enable (he : Ends addr) (ha : addr.toNat % 4 = 0) (hlo : 0x2000 ≤ addr.toNat)
    (hhi : addr.toNat < 0x200000) :
    c.Writes addr value ↔ (addr.toNat % 0x80 ≤ nr_source →
      ∀ context_id : Fin nr_context, (addr.toNat - 0x2000) / 0x80 = context_id →
        ∃ pos : Fin (sourceWords nr_source), (pos : Nat) = addr.toNat % 0x80 ∧
          ((pos : Nat) = 0 ∨ c.enable context_id pos = value ∧
            ∀ word : Fin (sourceWords nr_source), 4 * (word : Nat) = pos →
              c.enable context_id word = value)) := by
  obtain ⟨h₁, h₂, h₃⟩ := he.past_gap hlo
  have hctx : ((addr - 0x2000) / 0x80).toNat = (addr.toNat - 0x2000) / 0x80 := page_toNat _ hlo
  have hpos : (addr % 0x80).toNat = addr.toNat % 0x80 := mod_toNat _
  unfold Writes doWrite
  rw [sat_bind, sat_get, if_neg h₁, if_neg h₂, if_neg h₃, if_pos (he.enable.mpr hhi)]
  dsimp only
  rw [hctx, hpos]
  by_cases hk : (addr.toNat - 0x2000) / 0x80 < nr_context
  · rw [if_neg (Nat.not_le.mpr hk)]
    by_cases hsource : addr.toNat % 0x80 ≤ nr_source
    · rw [if_neg (Nat.not_lt.mpr hsource), sat_bind, sat_index, dif_pos hk, sat_bind, sat_index,
        forall_prop_of_true hsource]
      by_cases hi : addr.toNat % 0x80 < sourceWords nr_source
      · have hword : addr.toNat % 0x80 / 4 < sourceWords nr_source := by omega
        have haddr : addr.toNat = 0x2000 + 0x80 * ((addr.toNat - 0x2000) / 0x80)
            + 4 * (addr.toNat % 0x80 / 4) := by omega
        have hnamed : (PlicRegister.enable ⟨_, hk⟩ ⟨_, hword⟩ :
            PlicRegister nr_source nr_context).At addr.toNat :=
          ⟨haddr, show addr.toNat % 0x80 / 4 < 0x20 by omega, hhi⟩
        rw [dif_pos hi, sat_bind, sat_set, sat_pure, forall_prop_of_true rfl, wrote_iff hnamed,
          enable_eq_iff]
        constructor
        · intro h k hk'
          obtain rfl : k = ⟨_, hk⟩ := Fin.ext hk'.symm
          refine ⟨⟨_, hi⟩, rfl, ?_⟩
          rcases h with heq | ⟨hp, hw⟩
          · have hmod := Fin.mk.inj heq
            exact .inl (show addr.toNat % 0x80 = 0 by omega)
          · refine .inr ⟨hp, fun word hfour => ?_⟩
            have hfour : 4 * (word : Nat) = addr.toNat % 0x80 := hfour
            obtain rfl : word = ⟨_, hword⟩ :=
              Fin.ext (show (word : Nat) = addr.toNat % 0x80 / 4 by omega)
            exact hw
        · intro h
          obtain ⟨pos, hp, h⟩ := h ⟨_, hk⟩ rfl
          obtain rfl : pos = ⟨_, hi⟩ := Fin.ext hp
          rcases h with hzero | ⟨hp, hw⟩
          · have hzero : addr.toNat % 0x80 = 0 := hzero
            exact .inl (Fin.ext (show addr.toNat % 0x80 = addr.toNat % 0x80 / 4 by omega))
          · exact .inr ⟨hp, hw _ (show 4 * (addr.toNat % 0x80 / 4) = addr.toNat % 0x80 by omega)⟩
      · rw [dif_neg hi]
        refine iff_of_false (fun h => h rfl) fun h => ?_
        obtain ⟨pos, hp, -⟩ := h ⟨_, hk⟩ rfl
        exact hi (hp ▸ pos.isLt)
    · rw [if_pos (Nat.not_le.mp hsource)]
      exact iff_of_true nofun fun h => absurd h hsource
  · rw [if_pos (Nat.not_lt.mp hk)]
    refine iff_of_true nofun fun _ k hk' => ?_
    exact absurd (hk' ▸ k.isLt) hk

/-- A write to the page of a context is right unless it completes a source that has no word. -/
theorem doWrite_page (he : Ends addr) (hlo : 0x200000 ≤ addr.toNat)
    (hne : addr.toNat % 0x1000 = 0 ∨ addr.toNat % 0x1000 = 4 →
      (addr.toNat - 0x200000) / 0x1000 ≠ nr_context) :
    c.Writes addr value ↔ (addr.toNat % 0x1000 = 4 →
      (addr.toNat - 0x200000) / 0x1000 < nr_context → value.toNat / 32 < sourceWords nr_source) := by
  obtain ⟨h₁, h₂, h₃⟩ := he.past_gap (by omega)
  have h₄ : ¬addr + 4 ≤ 0x200000 := by rw [he.enable]; omega
  have hctx : ((addr - 0x200000) / 0x1000).toNat = (addr.toNat - 0x200000) / 0x1000 :=
    page_toNat _ hlo
  have hzero : addr % 0x1000 = 0 ↔ addr.toNat % 0x1000 = 0 := BitVec.toNat_inj.symm
  have hfour : addr % 0x1000 = 4 ↔ addr.toNat % 0x1000 = 4 := BitVec.toNat_inj.symm
  unfold Writes doWrite
  rw [sat_bind, sat_get, if_neg h₁, if_neg h₂, if_neg h₃, if_neg h₄]
  dsimp only
  rw [hctx]
  split
  · exact iff_of_true nofun fun _ _ => by omega
  split
  · have hoff := hzero.mp ‹_›
    have hlt := hne (.inl hoff)
    refine iff_of_true (.bind (index_sat (fun k hk => ?_) fun hout => ?_)) fun h => by omega
    · have hnamed : (PlicRegister.threshold k : PlicRegister nr_source nr_context).At addr.toNat := by
        show addr.toNat = 0x200000 + 0x1000 * (k : Nat)
        omega
      exact .bind (.set (.pure fun _ => (wrote_iff hnamed).mpr rfl))
    · omega
  split
  · have hoff := hfour.mp ‹_›
    have hlt : (addr.toNat - 0x200000) / 0x1000 < nr_context := by
      have := hne (.inr hoff)
      omega
    have hnamed : (PlicRegister.claim ⟨_, hlt⟩ : PlicRegister nr_source nr_context).At
        addr.toNat := by
      show addr.toNat = 0x200000 + 0x1000 * ((addr.toNat - 0x200000) / 0x1000) + 4
      omega
    rw [forall_prop_of_true hoff, forall_prop_of_true hlt, sat_bind, sat_index]
    by_cases hv : value.toNat / 32 < sourceWords nr_source
    · rw [dif_pos hv]
      refine iff_of_true (.bind (.set (.pure fun _ => (wrote_iff hnamed).mpr ?_))) hv
      rw [written, dif_pos hv]
    · rw [dif_neg hv]
      exact iff_of_false (fun h => h rfl) hv
  · exact iff_of_true nofun fun h => absurd (hfour.mpr h) ‹_›

end Access

/-! ## Every access -/

/-- An access of the last word of the address space is refused. -/
theorem confined_top (c : RVPLICtrl nr_source nr_context) (hs : nr_source < 2 ^ 31)
    (value : BitVec 32) : c.Confined 0xfffffffffffffffc value := by
  have hpast : 4 * nr_source < (0xfffffffffffffffc : Word).toNat := by
    show 4 * nr_source < 0xfffffffffffffffc
    omega
  constructor
  · intro buffer
    rw [doRead, if_neg (not_not_intro rfl), inArrays_get, if_pos (by decide),
      if_neg (by decide), if_pos (.inl hpast)]
    exact .pure _
  · unfold doWrite
    rw [sat_bind, sat_get, if_pos (by decide), if_neg (by decide), if_pos (.inl hpast)]
    exact .pure fun h => absurd h (by decide)

/-- In every reachable controller, an aligned access keeps to its arrays and its register exactly
where it does not go through one of the slips in the decoding. -/
theorem confined_iff_decoded {c : RVPLICtrl nr_source nr_context} (hr : Reach c)
    (hs : nr_source < 2 ^ 31) {addr : Word} (ha : addr.toNat % 4 = 0) (value : BitVec 32) :
    c.Confined addr value ↔ c.Decoded addr value := by
  have hlt := addr.isLt
  by_cases htop : addr.toNat + 4 < 2 ^ 64
  · have he := Ends.of_aligned ha htop
    constructor
    · intro h
      refine ⟨fun hlo hhi => ?_, fun hlo hhi => ?_, fun hlo => ?_, fun hlo hoff hctx => ?_⟩
      · exact (doRead_pending he hlo hhi 0).mp (h.read 0)
      · exact (doWrite_enable he ha hlo hhi).mp h.write
      · exact (doRead_page hr.latched he hlo 0).mp (h.read 0)
      · have hpage := (doRead_page hr.latched he hlo 0).mp (h.read 0)
        exact (doWrite_page he hlo hpage).mp h.write hoff hctx
    · intro h
      rcases Nat.lt_or_ge addr.toNat 0x1000 with h₁ | h₁
      · exact ⟨doRead_priority he h₁, doWrite_priority he ha h₁⟩
      rcases Nat.lt_or_ge addr.toNat 0x1080 with h₂ | h₂
      · exact ⟨fun buffer => (doRead_pending he h₁ h₂ buffer).mpr (h.pending h₁ h₂),
          doWrite_pending he h₁ h₂⟩
      rcases Nat.lt_or_ge addr.toNat 0x2000 with h₃ | h₃
      · exact ⟨doRead_gap he h₂ h₃, doWrite_gap he h₂ h₃⟩
      rcases Nat.lt_or_ge addr.toNat 0x200000 with h₄ | h₄
      · refine ⟨fun buffer => (doRead_enable he h₃ h₄ buffer).mpr fun hctx hsource => ?_,
          (doWrite_enable he ha h₃ h₄).mpr (h.enable h₃ h₄)⟩
        obtain ⟨pos, hpos, -⟩ := h.enable h₃ h₄ hsource ⟨_, hctx⟩ rfl
        exact hpos ▸ pos.isLt
      · exact ⟨fun buffer => (doRead_page hr.latched he h₄ buffer).mpr (h.context h₄),
          (doWrite_page he h₄ (h.context h₄)).mpr (h.complete h₄)⟩
  · obtain rfl : addr = 0xfffffffffffffffc :=
      BitVec.eq_of_toNat_eq (show addr.toNat = 0xfffffffffffffffc by omega)
    refine iff_of_true (confined_top c hs value) ⟨?_, ?_, ?_, ?_⟩
    · exact fun _ h => absurd h (by decide)
    · exact fun _ h => absurd h (by decide)
    · exact fun _ h => absurd h (by decide)
    · exact fun _ h => absurd h (by decide)

/-- In a new controller, word 0 of a context is enabled alone. -/
theorem confined_iff_decoded_enable :
    (new : RVPLICtrl 4 4).Confined 0x2080 2 :=
  (confined_iff_decoded .new (by decide) (by decide) 2).mpr
    ⟨by decide, by decide, by decide, by decide⟩

/-- The second word of the enable bits, of a controller that has one, is written to an index
outside the array. -/
theorem enable_outside_array :
    ¬∀ (nr_source nr_context : Nat) (c : RVPLICtrl nr_source nr_context), Reach c →
      ∀ (addr : Word) (value : BitVec 32), addr.toNat % 4 = 0 → c.Confined addr value := by
  intro h
  have hwrite := (h 4 4 .new .new 0x2004 1 (by decide)).write
  exact absurd rfl hwrite

end RVPLICtrl

end MEmu
