import MEmu.Bus
import MEmu.Lib.Run

/-!
# The platform-level interrupt controller

`RVPLICtrl`, for any number of sources and contexts, and `CemuPlicAdapter`, which wires one
of four sources and four contexts to the two cores.  A C array is a function from `Fin`, and
an index into it is checked first: outside the array C++ promises nothing, and the model
aborts.

`get_int` latches the source that a context would claim, and a claim read hands out what is
latched and marks it as claimed.  The latch stays as it is until the next `get_int`.
-/

namespace MEmu

open Run (Sat Keeps)

/-- What ends the process in the controller. -/
inductive PlicAbort where
  /-- `ReadBuffer_MMIODev_API` and `WriteBuffer_MMIODev_API`: the range assertion. -/
  | region
  /-- `do_read`: `assert(size == 4)`. -/
  | size
  /-- An index outside its array. -/
  | index
deriving DecidableEq

/-- The words of a bit set over the sources `0` to `nr_source`. -/
abbrev sourceWords (nr_source : Nat) : Nat := (nr_source + 1 + 31) / 32

/-- `RVPLICtrl<nr_source, nr_context>`. -/
structure RVPLICtrl (nr_source nr_context : Nat) where
  priority : Fin (nr_source + 1) → BitVec 32
  pending : Fin (sourceWords nr_source) → BitVec 32
  enable : Fin nr_context → Fin (sourceWords nr_source) → BitVec 32
  threshold : Fin nr_context → BitVec 32
  claim : Fin nr_context → BitVec 32
  claimed : Fin (sourceWords nr_source) → BitVec 32

/-! ## Bit sets over the sources -/

section SourceBits

variable {n : Nat}

/-- Bit `i` of a set.  No source is outside the array. -/
def sourceBit (a : Fin n → BitVec 32) (i : Nat) : Bool :=
  if h : i / 32 < n then (a ⟨i / 32, h⟩ >>> (i % 32)) &&& 1 != 0 else false

/-- `a[k] |= 1u << (source % 32)`. -/
def setSource (a : Fin n → BitVec 32) (k : Fin n) (source : BitVec 32) : Fin n → BitVec 32 :=
  Function.update a k (a k ||| 1#32 <<< (source.toNat % 32))

/-- `a[k] &= ~(1u << (source % 32))`. -/
def clearSource (a : Fin n → BitVec 32) (k : Fin n) (source : BitVec 32) : Fin n → BitVec 32 :=
  Function.update a k (a k &&& ~~~(1#32 <<< (source.toNat % 32)))

theorem sourceBit_of_lt (a : Fin n → BitVec 32) {i : Nat} (h : i / 32 < n) :
    sourceBit a i = (a ⟨i / 32, h⟩).getLsbD (i % 32) := by
  rw [sourceBit, dif_pos h]
  show ((a ⟨i / 32, h⟩ >>> (i % 32)) &&& 1#32 != 0) = _
  rw [BitVec.and_one_eq_setWidth_ofBool_getLsbD, BitVec.getLsbD_ushiftRight, Nat.add_zero]
  cases (a ⟨i / 32, h⟩).getLsbD (i % 32) <;> rfl

variable {a : Fin n → BitVec 32} {k : Fin n} {source : BitVec 32}

/-- A set after its word for `source` is replaced by one that differs in the bit of `source`. -/
theorem sourceBit_update {w : BitVec 32} {b : Bool} (hk : k.val = source.toNat / 32)
    (hw : ∀ j < 32, w.getLsbD j = if j = source.toNat % 32 then b else (a k).getLsbD j) (i : Nat) :
    sourceBit (Function.update a k w) i = if i = source.toNat then b else sourceBit a i := by
  by_cases h : i / 32 < n
  · rw [sourceBit_of_lt _ h, sourceBit_of_lt _ h]
    by_cases hi : (⟨i / 32, h⟩ : Fin n) = k
    · have hdiv : i / 32 = source.toNat / 32 := by rw [← hk, ← hi]
      have hmod : i % 32 = source.toNat % 32 ↔ i = source.toNat := by omega
      rw [hi, Function.update_self, hw _ (Nat.mod_lt _ (by decide))]
      exact ite_congr (propext hmod) (fun _ => rfl) fun _ => rfl
    · have hne : i ≠ source.toNat := fun hs => hi (Fin.ext ((congrArg (· / 32) hs).trans hk.symm))
      rw [Function.update_of_ne hi, if_neg hne]
  · have hne : i ≠ source.toNat := fun hs => h (by rw [hs, ← hk]; exact k.isLt)
    rw [if_neg hne, sourceBit, sourceBit, dif_neg h, dif_neg h]

theorem sourceBit_setSource (hk : k.val = source.toNat / 32) (i : Nat) :
    sourceBit (setSource a k source) i = if i = source.toNat then true else sourceBit a i := by
  refine sourceBit_update hk (fun j hj => ?_) i
  rw [← BitVec.twoPow_eq, BitVec.getLsbD_or, BitVec.getLsbD_twoPow]
  by_cases hb : j = source.toNat % 32
  · subst hb
    simp [hj]
  · simp [hb, Ne.symm hb]

theorem sourceBit_clearSource (hk : k.val = source.toNat / 32) (i : Nat) :
    sourceBit (clearSource a k source) i = if i = source.toNat then false else sourceBit a i := by
  refine sourceBit_update hk (fun j hj => ?_) i
  rw [← BitVec.twoPow_eq, BitVec.getLsbD_and, BitVec.getLsbD_not, BitVec.getLsbD_twoPow]
  by_cases hb : j = source.toNat % 32
  · subst hb
    simp [hj]
  · simp [hb, Ne.symm hb, hj]

end SourceBits

/-! ## The controller -/

/-- A computation on the controller. -/
abbrev PlicM (nr_source nr_context : Nat) := EStateM PlicAbort (RVPLICtrl nr_source nr_context)

namespace RVPLICtrl

variable {nr_source nr_context : Nat}

/-- The constructor. -/
def new : RVPLICtrl nr_source nr_context :=
  { priority := fun _ => 0
    pending := fun _ => 0
    enable := fun _ _ => 0
    threshold := fun _ => 0
    claim := fun _ => 0
    claimed := fun _ => 0 }

/-- `i` as an index into an array of length `n`. -/
def index (n i : Nat) : PlicM nr_source nr_context (Fin n) :=
  if h : i < n then pure ⟨i, h⟩ else throw .index

/-- `update_ext`. -/
def updateExt (source_id : BitVec 32) (fired : Bool) : PlicM nr_source nr_context Unit :=
  if fired then do
    let k ← index (sourceWords nr_source) (source_id.toNat / 32)
    modify fun c => { c with pending := setSource c.pending k source_id }
  else pure ()

/-- The test of `get_int` on source `i`, but for the comparison of priorities. -/
def eligible (c : RVPLICtrl nr_source nr_context) (context_id : Fin nr_context)
    (i : Fin (nr_source + 1)) : Bool :=
  decide (c.threshold context_id ≤ c.priority i) && sourceBit c.pending i &&
    sourceBit (c.enable context_id) i && !sourceBit c.claimed i

/-- One turn of the loop of `get_int`, on `(max_priority, max_priority_int)`. -/
def bestOf (c : RVPLICtrl nr_source nr_context) (context_id : Fin nr_context)
    (best : Word × Word) (i : Fin (nr_source + 1)) : Word × Word :=
  if c.eligible context_id i then
    if best.1 < (c.priority i).setWidth 64 then
      ((c.priority i).setWidth 64, BitVec.ofNat 64 i)
    else best
  else best

/-- The loop of `get_int`, from source 1 to `nr_source`. -/
def maxPriorityInt (c : RVPLICtrl nr_source nr_context) (context_id : Fin nr_context) :
    Word × Word :=
  ((List.finRange nr_source).map Fin.succ).foldl (c.bestOf context_id) (0, 0)

/-- `get_int`. -/
def getInt (context_id : Nat) : PlicM nr_source nr_context Bool := do
  let k ← index nr_context context_id
  let c ← get
  let max_priority_int := (c.maxPriorityInt k).2
  let latch := if max_priority_int ≠ 0 then max_priority_int.setWidth 32 else 0
  set { c with claim := Function.update c.claim k latch }
  pure (latch != 0)

/-- `do_read`: whether the access is answered, and the word in the buffer after it. -/
def doRead (start_addr size : Word) (buffer : BitVec 32) :
    PlicM nr_source nr_context (Bool × BitVec 32) := do
  if size ≠ 4 then throw .size
  else
  let c ← get
  if start_addr + size ≤ 0x1000 then
    if start_addr = 0 then pure (false, buffer)
    else if 4 * nr_source < start_addr.toNat ∨ 4 * (nr_source + 1) < (start_addr + size).toNat then
      pure (false, buffer)
    else do
      let i ← index (nr_source + 1) (start_addr / 4).toNat
      pure (true, c.priority i)
  else if start_addr + size ≤ 0x1080 then
    let idx := (start_addr - 0x1000) / 4
    if nr_source < idx.toNat then pure (false, buffer)
    else do
      let i ← index (sourceWords nr_source) idx.toNat
      pure (true, c.pending i)
  else if start_addr + size ≤ 0x2000 then pure (false, buffer)
  else if start_addr + size ≤ 0x200000 then
    let context_id := (start_addr - 0x2000) / 0x80
    let pos := start_addr % 0x80
    if nr_context ≤ context_id.toNat then pure (false, buffer)
    else if nr_source < pos.toNat then pure (false, buffer)
    else do
      let k ← index nr_context context_id.toNat
      let i ← index (sourceWords nr_source) pos.toNat
      pure (true, c.enable k i)
  else
    let context_id := (start_addr - 0x200000) / 0x1000
    -- The test lets the first context past the end through.
    if nr_context < context_id.toNat then pure (false, buffer)
    else
    let offset := start_addr % 0x1000
    if offset = 0 then do
      let k ← index nr_context context_id.toNat
      pure (true, c.threshold k)
    else if offset = 4 then do
      let k ← index nr_context context_id.toNat
      let i ← index (sourceWords nr_source) ((c.claim k).toNat / 32)
      set { c with claimed := setSource c.claimed i (c.claim k) }
      pure (true, c.claim k)
    else pure (false, buffer)

/-- `do_write`, with the first word of the buffer. -/
def doWrite (start_addr size : Word) (buffer : BitVec 32) : PlicM nr_source nr_context Bool := do
  let c ← get
  if start_addr + size ≤ 0x1000 then
    if start_addr = 0 then pure false
    else if 4 * nr_source < start_addr.toNat ∨ 4 * (nr_source + 1) < (start_addr + size).toNat then
      pure false
    else do
      let i ← index (nr_source + 1) (start_addr / 4).toNat
      set { c with priority := Function.update c.priority i buffer }
      pure true
  else if start_addr + size ≤ 0x1080 then pure true
  else if start_addr + size ≤ 0x2000 then pure false
  else if start_addr + size ≤ 0x200000 then
    let context_id := (start_addr - 0x2000) / 0x80
    let pos := start_addr % 0x80
    if nr_context ≤ context_id.toNat then pure false
    else if nr_source < pos.toNat then pure false
    else do
      let k ← index nr_context context_id.toNat
      let i ← index (sourceWords nr_source) pos.toNat
      set { c with enable := Function.update c.enable k (Function.update (c.enable k) i buffer) }
      pure true
  else
    let context_id := (start_addr - 0x200000) / 0x1000
    if nr_context < context_id.toNat then pure false
    else
    let offset := start_addr % 0x1000
    if offset = 0 then do
      let k ← index nr_context context_id.toNat
      set { c with threshold := Function.update c.threshold k buffer }
      pure true
    else if offset = 4 then do
      -- Neither the context nor the claim is looked at.
      let i ← index (sourceWords nr_source) (buffer.toNat / 32)
      set { c with
        claimed := clearSource c.claimed i buffer
        pending := clearSource c.pending i buffer }
      pure true
    else pure false

/-! ### What the operations do -/

section Specs

variable {c : RVPLICtrl nr_source nr_context}

theorem index_sat {n i : Nat} {Q : Fin n → RVPLICtrl nr_source nr_context → Prop}
    {E : PlicAbort → RVPLICtrl nr_source nr_context → Prop} (hin : ∀ k : Fin n, k = i → Q k c)
    (hout : n ≤ i → E .index c) : Sat c (index n i) Q E := by
  unfold index
  split
  · exact .pure (hin _ rfl)
  · exact .throw (hout (Nat.le_of_not_lt ‹_›))

/-- The context whose claim and complete register an access names. -/
def claimContext (nr_context : Nat) (start_addr size : Word) : Option Nat :=
  let context_id := (start_addr - 0x200000) / 0x1000
  if start_addr + size ≤ 0x200000 then none
  else if nr_context < context_id.toNat then none
  else if start_addr % 0x1000 = 4 then some context_id.toNat
  else none

/-- `update_ext` touches the pending bits alone. -/
theorem updateExt_sat (source_id : BitVec 32) (fired : Bool) :
    Sat c (updateExt source_id fired)
      (fun _ c' => ∃ pending, c' = { c with pending := pending }) (fun _ _ => True) :=
  .ite (fun _ => .bind (index_sat (fun _ _ => .modify ⟨_, rfl⟩) fun _ => trivial))
    fun _ => .pure ⟨c.pending, rfl⟩

theorem bestOf_source {k : Fin nr_context} {best : Word × Word} {i : Fin (nr_source + 1)}
    (h : best.2.toNat ≤ nr_source) : (c.bestOf k best i).2.toNat ≤ nr_source := by
  unfold bestOf
  split
  · split
    · exact (Nat.mod_le _ _).trans (Nat.lt_succ_iff.mp i.isLt)
    · exact h
  · exact h

theorem maxPriorityInt_le (k : Fin nr_context) : (c.maxPriorityInt k).2.toNat ≤ nr_source := by
  suffices h : ∀ (l : List (Fin (nr_source + 1))) (best : Word × Word),
      best.2.toNat ≤ nr_source → (l.foldl (c.bestOf k) best).2.toNat ≤ nr_source from
    h _ (0, 0) (Nat.zero_le _)
  intro l
  induction l with
  | nil => exact fun _ h => h
  | cons i l ih => exact fun best h => ih _ (bestOf_source h)

/-- `get_int` touches one latch, and leaves a source or 0 in it. -/
theorem getInt_sat (context_id : Nat) :
    Sat c (getInt context_id)
      (fun _ c' => ∃ (k : Fin nr_context) (latch : BitVec 32), latch.toNat ≤ nr_source ∧
        c' = { c with claim := Function.update c.claim k latch }) (fun _ _ => True) := by
  refine .bind (index_sat (fun k _ => ?_) fun _ => trivial)
  refine .bind (.get (.bind (.set (.pure ⟨k, _, ?_, rfl⟩))))
  split
  · rw [BitVec.toNat_setWidth]
    exact (Nat.mod_le _ _).trans (maxPriorityInt_le k)
  · exact Nat.zero_le _

theorem of_claimContext {start_addr size : Word} {context_id : Nat}
    (h : claimContext nr_context start_addr size = some context_id) :
    ¬start_addr + size ≤ 0x200000 ∧ ((start_addr - 0x200000) / 0x1000).toNat = context_id ∧
      context_id ≤ nr_context ∧ start_addr % 0x1000 = 4 := by
  unfold claimContext at h
  dsimp only at h
  split at h
  · cases h
  split at h
  · cases h
  split at h
  · cases h
    exact ⟨‹_›, rfl, Nat.le_of_not_lt ‹_›, ‹_›⟩
  · cases h

/-- The end of the claim registers' page is past the end of every other page. -/
theorem not_le_of_page {x y z : Word} (h : ¬x ≤ z) (hyz : y ≤ z) : ¬x ≤ y :=
  fun hxy => h (BitVec.le_trans hxy hyz)

@[simp] theorem index_val {n : Nat} (k : Fin n) :
    (index n k : PlicM nr_source nr_context (Fin n)) = pure k := dif_pos k.isLt

variable {start_addr size : Word} {context_id : Nat}

/-- A read of a claim register hands out the latch of the context and marks it as claimed. -/
theorem doRead_claim (h : claimContext nr_context start_addr 4 = some context_id)
    (buffer : BitVec 32) :
    (doRead start_addr 4 buffer : PlicM nr_source nr_context _) = (do
      let c ← get
      let k ← index nr_context context_id
      let i ← index (sourceWords nr_source) ((c.claim k).toNat / 32)
      set { c with claimed := setSource c.claimed i (c.claim k) }
      pure (true, c.claim k)) := by
  obtain ⟨hpage, hctx, hle, hoff⟩ := of_claimContext h
  have h₁ := not_le_of_page hpage (show (0x1000 : Word) ≤ 0x200000 by decide)
  have h₂ := not_le_of_page hpage (show (0x1080 : Word) ≤ 0x200000 by decide)
  have h₃ := not_le_of_page hpage (show (0x2000 : Word) ≤ 0x200000 by decide)
  simp only [doRead, hctx, hoff, if_neg h₁, if_neg h₂, if_neg h₃, if_neg hpage,
    if_neg (Nat.not_lt.mpr hle)]
  rfl

/-- A write of a claim register completes the source in the buffer. -/
theorem doWrite_complete (h : claimContext nr_context start_addr size = some context_id)
    (buffer : BitVec 32) :
    (doWrite start_addr size buffer : PlicM nr_source nr_context _) = (do
      let c ← get
      let i ← index (sourceWords nr_source) (buffer.toNat / 32)
      set { c with
        claimed := clearSource c.claimed i buffer
        pending := clearSource c.pending i buffer }
      pure true) := by
  obtain ⟨hpage, hctx, hle, hoff⟩ := of_claimContext h
  have h₁ := not_le_of_page hpage (show (0x1000 : Word) ≤ 0x200000 by decide)
  have h₂ := not_le_of_page hpage (show (0x1080 : Word) ≤ 0x200000 by decide)
  have h₃ := not_le_of_page hpage (show (0x2000 : Word) ≤ 0x200000 by decide)
  simp only [doWrite, hctx, hoff, if_neg h₁, if_neg h₂, if_neg h₃, if_neg hpage,
    if_neg (Nat.not_lt.mpr hle)]
  rfl

/-- The last branch of the decoding, where the access names no claim register. -/
theorem other_of_claimContext (h : claimContext nr_context start_addr size = none)
    (hpage : ¬start_addr + size ≤ 0x200000)
    (hctx : ¬nr_context < ((start_addr - 0x200000) / 0x1000).toNat) :
    start_addr % 0x1000 ≠ 4 := by
  intro hoff
  rw [claimContext, if_neg hpage, if_neg hctx, if_pos hoff] at h
  cases h

/-- Any other read changes nothing. -/
theorem doRead_other (h : claimContext nr_context start_addr size = none) (buffer : BitVec 32) :
    Sat c (doRead start_addr size buffer) (fun _ c' => c' = c) (fun _ _ => True) := by
  have hindex {n i : Nat} {f : Fin n → Bool × BitVec 32} :
      Sat c (do let k ← index n i; pure (f k)) (fun _ c' => c' = c) (fun _ _ => True) :=
    .bind (index_sat (fun _ _ => .pure rfl) fun _ => trivial)
  refine .ite (fun _ => .throw trivial) fun _ => .bind (.get ?_)
  refine .ite (fun _ => ?_) fun _ => .ite (fun _ => ?_) fun _ => .ite (fun _ => .pure rfl) fun _ =>
    .ite (fun _ => ?_) fun hpage => ?_
  · exact .ite (fun _ => .pure rfl) fun _ => .ite (fun _ => .pure rfl) fun _ => hindex
  · exact .ite (fun _ => .pure rfl) fun _ => hindex
  · refine .ite (fun _ => .pure rfl) fun _ => .ite (fun _ => .pure rfl) fun _ => ?_
    exact .bind (index_sat (fun _ _ => hindex) fun _ => trivial)
  · refine .ite (fun _ => .pure rfl) fun hctx => .ite (fun _ => hindex) fun _ => ?_
    exact .ite (fun hoff => absurd hoff (other_of_claimContext h hpage hctx)) fun _ => .pure rfl

/-- Any other write leaves the pending and the claimed bits and the latches alone. -/
theorem doWrite_other (h : claimContext nr_context start_addr size = none) (buffer : BitVec 32) :
    Sat c (doWrite start_addr size buffer)
      (fun _ c' => c'.pending = c.pending ∧ c'.claimed = c.claimed ∧ c'.claim = c.claim)
      (fun _ _ => True) := by
  have hindex {n i : Nat} {f : Fin n → RVPLICtrl nr_source nr_context}
      (hf : ∀ k, (f k).pending = c.pending ∧ (f k).claimed = c.claimed ∧ (f k).claim = c.claim) :
      Sat c (do let k ← index n i; set (f k); pure true)
        (fun _ c' => c'.pending = c.pending ∧ c'.claimed = c.claimed ∧ c'.claim = c.claim)
        (fun _ _ => True) :=
    .bind (index_sat (fun k _ => .bind (.set (.pure (hf k)))) fun _ => trivial)
  have hsame : c.pending = c.pending ∧ c.claimed = c.claimed ∧ c.claim = c.claim :=
    ⟨rfl, rfl, rfl⟩
  refine .bind (.get (.ite (fun _ => ?_) fun _ => .ite (fun _ => .pure hsame) fun _ =>
    .ite (fun _ => .pure hsame) fun _ => .ite (fun _ => ?_) fun hpage => ?_))
  · refine .ite (fun _ => .pure hsame) fun _ => .ite (fun _ => .pure hsame) fun _ => ?_
    exact hindex fun _ => hsame
  · refine .ite (fun _ => .pure hsame) fun _ => .ite (fun _ => .pure hsame) fun _ => ?_
    exact .bind (index_sat (fun _ _ => hindex fun _ => hsame) fun _ => trivial)
  · refine .ite (fun _ => .pure hsame) fun hctx => .ite (fun _ => hindex fun _ => hsame) fun _ => ?_
    exact .ite (fun hoff => absurd hoff (other_of_claimContext h hpage hctx)) fun _ => .pure hsame

end Specs

end RVPLICtrl

/-! ## The adapter -/

/-- `CemuPlicAdapter`, with what its pointers to the interrupt lines of the cores lead to. -/
structure CemuPlicAdapter where
  addrRegionSize : Word
  intCtrl : RVPLICtrl 4 4
  /-- The devices by interrupt number, which ascends. -/
  intDevMap : List (BitVec 32 × DevHandle)
  core0IntStatus : IntStatus
  core1IntStatus : IntStatus

/-- A computation on the adapter. -/
abbrev AdapterM := EStateM PlicAbort CemuPlicAdapter

namespace CemuPlicAdapter

/-- The adapter that `GetInstance_API` makes, with the lines of two cores attached. -/
def new (core0 core1 : IntStatus) : CemuPlicAdapter :=
  { addrRegionSize := 0x4000000
    intCtrl := .new
    intDevMap := []
    core0IntStatus := core0
    core1IntStatus := core1 }

/-- A computation on the controller, on the one of the adapter. -/
def onCtrl {α : Type} (x : PlicM 4 4 α) : AdapterM α := fun a =>
  match x.run a.intCtrl with
  | .ok r c => .ok r { a with intCtrl := c }
  | .error e c => .error e { a with intCtrl := c }

/-- `ReadBuffer_MMIODev_API`, with the word in the buffer before and after it. -/
def readBuffer (begin_addr size : Word) (buffer : BitVec 32) :
    AdapterM (FuncReturnFeedback × BitVec 32) := do
  let a ← get
  if begin_addr + size ≤ a.addrRegionSize then
    let r ← onCtrl (RVPLICtrl.doRead begin_addr size buffer)
    pure (if r.1 then .ok else .unknown, r.2)
  else throw .region

/-- `WriteBuffer_MMIODev_API`, with the first word of the buffer. -/
def writeBuffer (begin_addr size : Word) (buffer : BitVec 32) : AdapterM FuncReturnFeedback := do
  let a ← get
  if begin_addr + size ≤ a.addrRegionSize then
    let feedback ← onCtrl (RVPLICtrl.doWrite begin_addr size buffer)
    pure (if feedback then .ok else .unknown)
  else throw .region

/-- `RegisterDev_IntCtrl_API`. -/
def registerDev (int_id : BitVec 32) (dev : DevHandle) : AdapterM FuncReturnFeedback := do
  let a ← get
  if a.intDevMap.any fun it => it.1 == int_id then pure .intNumConflict
  else
    set { a with
      intDevMap := a.intDevMap.orderedInsert (fun it it' => it.1 ≤ it'.1) (int_id, dev) }
    pure .ok

/-- `UnregisterDev_IntCtrl_API` of an interrupt number. -/
def unregisterDev (int_id : BitVec 32) : AdapterM FuncReturnFeedback := do
  let a ← get
  if a.intDevMap.any fun it => it.1 == int_id then
    set { a with intDevMap := a.intDevMap.filter fun it => it.1 != int_id }
    pure .ok
  else pure .notFound

/-- The loop of `UpdateIntState_IntCtrl_API` over the registered devices. -/
def updateDevs (irq : DevHandle → Bool) : List (BitVec 32 × DevHandle) → AdapterM Unit
  | [] => pure ()
  | it :: rest => do
      onCtrl (RVPLICtrl.updateExt it.1 (irq it.2))
      updateDevs irq rest

/-- `UpdateIntState_IntCtrl_API`, where `irq` is what `GetIrqStatus` of each device returns. -/
def updateIntState (irq : DevHandle → Bool) : AdapterM FuncReturnFeedback := do
  let a ← get
  updateDevs irq a.intDevMap
  let meip ← onCtrl (RVPLICtrl.getInt 0)
  modify fun a => { a with core0IntStatus.meip := meip }
  let seip ← onCtrl (RVPLICtrl.getInt 1)
  modify fun a => { a with core0IntStatus.seip := seip }
  let meip ← onCtrl (RVPLICtrl.getInt 2)
  modify fun a => { a with core1IntStatus.meip := meip }
  let seip ← onCtrl (RVPLICtrl.getInt 3)
  modify fun a => { a with core1IntStatus.seip := seip }
  pure .ok

variable {a : CemuPlicAdapter}

theorem run_onCtrl {α : Type} (x : PlicM 4 4 α) (a : CemuPlicAdapter) :
    (onCtrl x).run a = match x.run a.intCtrl with
      | .ok r c => .ok r { a with intCtrl := c }
      | .error e c => .error e { a with intCtrl := c } := rfl

theorem onCtrl_sat {α : Type} {x : PlicM 4 4 α} {Q : α → CemuPlicAdapter → Prop}
    {E : PlicAbort → CemuPlicAdapter → Prop}
    (h : Sat a.intCtrl x (fun r c => Q r { a with intCtrl := c })
      (fun e c => E e { a with intCtrl := c })) : Sat a (onCtrl x) Q E :=
  .part (fun r c hr => by rw [run_onCtrl, hr]) (fun e c hr => by rw [run_onCtrl, hr]) h

/-- What an update keeps: the claimed bits, and latches that hold a source or 0. -/
structure Latched (claimed : Fin (sourceWords 4) → BitVec 32) (a : CemuPlicAdapter) : Prop where
  claimed : a.intCtrl.claimed = claimed
  latch : ∀ k, (a.intCtrl.claim k).toNat ≤ 4

variable {claimed : Fin (sourceWords 4) → BitVec 32}

theorem updateDevs_latched (irq : DevHandle → Bool) (devs : List (BitVec 32 × DevHandle))
    (h : a.Latched claimed) :
    Sat a (updateDevs irq devs) (fun _ => Latched claimed) (fun _ _ => True) := by
  induction devs generalizing a with
  | nil => exact .pure h
  | cons it rest ih =>
      refine .bind (onCtrl_sat ((RVPLICtrl.updateExt_sat it.1 (irq it.2)).mono ?_
        fun _ _ _ => trivial))
      rintro _ _ ⟨pending, rfl⟩
      exact ih ⟨h.claimed, h.latch⟩

/-- One of the four calls of `get_int` in an update, and what comes after it. -/
theorem getInt_latched {α : Type} {x : AdapterM α}
    {line : Bool → CemuPlicAdapter → CemuPlicAdapter} (context_id : Nat) (h : a.Latched claimed)
    (hline : ∀ b a, (line b a).intCtrl = a.intCtrl)
    (hx : ∀ a, a.Latched claimed → Sat a x (fun _ => Latched claimed) (fun _ _ => True)) :
    Sat a (do let b ← onCtrl (RVPLICtrl.getInt context_id); modify (line b); x)
      (fun _ => Latched claimed) (fun _ _ => True) := by
  refine .bind (onCtrl_sat ((RVPLICtrl.getInt_sat context_id).mono ?_ fun _ _ _ => trivial))
  rintro b _ ⟨k, latch, hle, rfl⟩
  refine .bind (.modify (hx _ ⟨?_, fun k' => ?_⟩))
  · rw [hline]
    exact h.claimed
  · rw [hline]
    show (Function.update a.intCtrl.claim k latch k').toNat ≤ 4
    rw [Function.update_apply]
    split
    · exact hle
    · exact h.latch k'

theorem updateIntState_latched (irq : DevHandle → Bool) (h : a.Latched claimed) :
    Sat a (updateIntState irq) (fun _ => Latched claimed) (fun _ _ => True) := by
  refine .bind (.get (.bind ((updateDevs_latched irq _ h).mono (fun _ a₀ h₀ => ?_)
    fun _ _ _ => trivial)))
  refine getInt_latched 0 h₀ (fun _ _ => rfl) fun a₁ h₁ => ?_
  refine getInt_latched 1 h₁ (fun _ _ => rfl) fun a₂ h₂ => ?_
  refine getInt_latched 2 h₂ (fun _ _ => rfl) fun a₃ h₃ => ?_
  exact getInt_latched 3 h₃ (fun _ _ => rfl) fun a₄ h₄ => .pure h₄

end CemuPlicAdapter

end MEmu
