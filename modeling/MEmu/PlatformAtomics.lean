import MEmu.PlatformInterrupts
import MEmu.PlatformMemory

/-!
# AMOs on the platform

A hart ends its step before the other begins one, so nothing comes between the read of an
AMO and its write.  What it reads from RAM is what was stored last, by whichever hart, what it
stores is the result of its operation on that, and the hart has the old value
(`amo_atomic`).  Where only AMOs touch a word, the word is at the end what all of them make of
it, one after the other: no update is lost (`amo_no_lost_update`).
-/

namespace MEmu

open Labelled (Steps)
open Run (Sat)
open Trace (Each cuts cuts_snoc each_nil)

namespace DefaultPlatform

/-! ## The AMOs of a turn -/

section Turn

variable {p p' : DefaultPlatform} {t : Turn} {k : HartId} {before : List PlatformEvent}
  {b : MEmuMMIOBus PlatformDev} {line : IntStatus} {own : List BusEvent}
  {m : Machine (MEmuMMIOBus PlatformDev)} {addr size : Word} {data : List Byte}
  {fb : FuncReturnFeedback}

/-- The step that the write of an AMO belongs to is that of an AMO, and it ends with the write. -/
theorem HartTurn.amo (h : HartTurn p t p' k before b line own m) {pre post : List PlatformEvent}
    (hcut : t.events = pre ++ .access k (.write .amoWrite addr size data fb) :: post) :
    ∃ f va src rd buffer old own',
      AmoEvents f src addr size buffer old data fb own' own ∧
      ((p.hart k).on b line).memOp = some (.amo f va size src, rd) ∧
      pre = before ++ own'.map (.access k) ++
        [.access k (.read .amoRead addr size buffer (.ok, old))] ∧
      (fb = .ok → rd ≠ 0 → (p'.hart k).core.GPR rd = Bytes.extend true size.toNat old) := by
  have hmem : .write .amoWrite addr size data fb ∈ own :=
    h.mem_events (hcut ▸ List.mem_append_right _ List.mem_cons_self)
  rcases h.step.events.amo with hplain | ⟨f, va, src, rd, addr', size', buffer, old, data', fb',
    own', hop, hamo, hrd⟩
  · exact absurd rfl (hplain _ hmem).kind
  obtain ⟨rfl, hplain, hword, hupdate⟩ := hamo
  obtain ⟨after, hevents, hnone⟩ := h.cut
  have hown : PlatformEvent.access k (.write .amoWrite addr size data fb)
      ∉ own'.map (PlatformEvent.access k) := by
    intro he
    obtain ⟨e, he, heq⟩ := List.mem_map.mp he
    cases heq
    exact (hplain _ he).kind rfl
  have hbefore : PlatformEvent.access k (.write .amoWrite addr size data fb) ∉
      before ++ own'.map (.access k) ++
        [.access k (.read .amoRead addr' size' buffer (.ok, old))] := by
    simp only [List.mem_append, not_or]
    exact ⟨⟨(hnone _).1, hown⟩, by simp⟩
  have hparts : before ++ own'.map (.access k) ++
      [.access k (.read .amoRead addr' size' buffer (.ok, old))] ++
        .access k (.write .amoWrite addr' size' data' fb') :: after
          = pre ++ .access k (.write .amoWrite addr size data fb) :: post := by
    rw [← hcut, hevents]
    simp
  obtain ⟨rfl, hwrite, -⟩ :=
    (List.append_cons_inj_of_notMem hbefore (hnone _).2).mp hparts
  cases hwrite
  exact ⟨f, va, src, rd, buffer, old, own', ⟨rfl, hplain, hword, hupdate⟩, hop, rfl,
    fun hfb hne => (congrArg (fun hart => hart.core.GPR rd) h.ends).trans (hrd hfb hne)⟩

end Turn

/-! ## The AMOs of a run -/

/-- In a turn of a run from `p₀` the step of the hart `k` is one of an instruction that accesses
memory.  Its last accesses are `last`, the events `pre` of the run come before these, and the turn
ends with `p'`. -/
def PerformsIn (p₀ : DefaultPlatform) (turns : List Turn) (k : HartId) (op : MemOp)
    (rd : BitVec 5) (pre : List PlatformEvent) (last : List BusEvent) (p' : DefaultPlatform) :
    Prop :=
  ∃ turns' t rest p before b line own m, turns = turns' ++ t :: rest ∧
    Steps Takes p₀ turns' p ∧ Takes p t p' ∧ HartTurn p t p' k before b line (own ++ last) m ∧
    ((p.hart k).on b line).memOp = some (op, rd) ∧
    pre = trace turns' ++ before ++ own.map (.access k)

/-- At a place in the trace there is one instruction: that of the step whose accesses are there. -/
theorem PerformsIn.unique {p₀ p' p'' : DefaultPlatform} {turns : List Turn} {k : HartId}
    {op op' : MemOp} {rd rd' : BitVec 5} {pre : List PlatformEvent} {last last' : List BusEvent}
    (h : PerformsIn p₀ turns k op rd pre last p')
    (h' : PerformsIn p₀ turns k op' rd' pre last' p'') (hlast : last ≠ []) (hlast' : last' ≠ []) :
    op = op' ∧ rd = rd' ∧ p' = p'' := by
  obtain ⟨turns', t, rest, p, before, b, line, own, m, rfl, hturns, ht, hturn, hop, rfl⟩ := h
  obtain ⟨turns'', t', rest', q, before', b', line', own', m', hsame, hturns', ht', hturn', hop',
    hpre⟩ := h'
  obtain ⟨e, last, rfl⟩ := List.exists_cons_of_ne_nil hlast
  obtain ⟨e', last', rfl⟩ := List.exists_cons_of_ne_nil hlast'
  obtain ⟨after, hevents, -⟩ := hturn.cut
  obtain ⟨after', hevents', -⟩ := hturn'.cut
  simp only [List.map_append, List.map_cons, List.append_assoc, List.cons_append]
    at hevents hevents' hpre
  rw [← List.append_assoc] at hevents hevents'
  obtain ⟨rfl, rfl, hpart⟩ := Trace.flatMap_cut_unique hsame hevents hevents' hpre
  obtain rfl := hturns.unique hturns' fun _ _ _ _ => Takes.unique
  obtain ⟨rfl, rfl⟩ := hturn.unique hturn' hpart
  cases hop.symm.trans hop'
  exact ⟨rfl, rfl, ht.unique ht'⟩

/-- The write of an AMO in a run from `p₀`, after the events `pre`. -/
def AmoInRun (init : Nat → Byte) (p₀ : DefaultPlatform) (turns : List Turn)
    (pre : List PlatformEvent) (e : PlatformEvent) : Prop :=
  ∀ k addr size data fb, e = .access k (.write .amoWrite addr size data fb) →
    ∃ f va src rd p' pre' buffer old,
      PerformsIn p₀ turns k (.amo f va size src) rd pre'
        [.read .amoRead addr size buffer (.ok, old), .write .amoWrite addr size data fb] p' ∧
      pre = pre' ++ [.access k (.read .amoRead addr size buffer (.ok, old))] ∧
      (deviceAt addr = some ram → old = bytesAt init pre' addr size) ∧
      f.update src size old = some data ∧
      (fb = .ok → rd ≠ 0 → (p'.hart k).core.GPR rd = Bytes.extend true size.toNat old)

section Runs

variable {memData : Nat → Byte} {beyond : Nat → List Byte} {bin_data : List Byte}
  {turns : List Turn} {p₀ p : DefaultPlatform}

/-- Every write of an AMO in a run is that of the instruction of its step. -/
theorem Reaches.amoInRun (h : Reaches memData beyond bin_data [] p₀)
    (hturns : Steps Takes p₀ turns p) :
    Each (AmoInRun (imageAt memData bin_data) p₀ turns) (trace turns) := by
  rintro pre _ post hcut k addr size data fb rfl
  obtain ⟨turns', t, rest, before', after, rfl, hevents, rfl⟩ := Trace.flatMap_cut hcut
  obtain ⟨q, q', hturns', ht, -⟩ := hturns.split
  obtain ⟨before, b, line, own, m, hturn⟩ := (h.append hturns').hartTurn ht k
  obtain ⟨f, va, src, rd, buffer, old, own', hamo, hop, rfl, hrd⟩ := hturn.amo hevents
  obtain ⟨rfl, -, -, hupdate⟩ := hamo
  refine ⟨f, va, src, rd, q', trace turns' ++ before ++ own'.map (.access k), buffer, old,
    ⟨turns', t, rest, q, before, b, line, own', m, rfl, hturns', ht, hturn, hop, rfl⟩, ?_, ?_,
    hupdate, hrd⟩
  · simp only [List.append_assoc]
  · refine (h.append hturns).readsLast _ _ (.access k (.write .amoWrite addr size data fb) :: post)
      ?_ k .amoRead addr size buffer (.ok, old) rfl
    rw [List.nil_append, hcut]
    simp only [List.append_assoc, List.cons_append, List.nil_append]

/-- In every run of the platform the write of an AMO comes right after its read, which got what was
stored last.  What it stores is the result of the operation of the instruction of that step on
what was read, and where it goes through the hart has the old value after the step. -/
theorem amo_atomic (h : Reaches memData beyond bin_data [] p₀) (hturns : Steps Takes p₀ turns p)
    {k : HartId} {addr size : Word} {data : List Byte} {fb : FuncReturnFeedback}
    {pre post : List PlatformEvent}
    (hcut : trace turns = pre ++ .access k (.write .amoWrite addr size data fb) :: post) :
    ∃ f va src rd p' pre' buffer old,
      PerformsIn p₀ turns k (.amo f va size src) rd pre'
        [.read .amoRead addr size buffer (.ok, old), .write .amoWrite addr size data fb] p' ∧
      pre = pre' ++ [.access k (.read .amoRead addr size buffer (.ok, old))] ∧
      (deviceAt addr = some ram → old = bytesAt (imageAt memData bin_data) pre' addr size) ∧
      f.update src size old = some data ∧
      (fb = .ok → rd ≠ 0 → (p'.hart k).core.GPR rd = Bytes.extend true size.toNat old) :=
  h.amoInRun hturns pre _ post hcut k addr size data fb rfl

/-- The write of an AMO that is in the log is in the trace. -/
theorem Reaches.amo_of_log (h : Reaches memData beyond bin_data turns p) {k : HartId}
    {r : BusAccess} (hr : (k, r) ∈ p.log) (hkind : r.kind = .amoWrite) :
    ∃ pre data fb post,
      trace turns = pre ++ .access k (.write .amoWrite r.addr r.size data fb) :: post := by
  rw [h.log] at hr
  obtain ⟨e, he, hrecord⟩ := List.mem_filterMap.mp hr
  obtain ⟨pre, post, hcut⟩ := List.append_of_mem he
  obtain ⟨b, b', hstep⟩ := h.event he
  cases hstep with
  | call => cases hrecord
  | access k hstep =>
      cases hrecord
      cases hstep with
      | read hread =>
          cases hkind
          cases hread
      | write =>
          cases hkind
          exact ⟨pre, _, _, post, hcut⟩

/-- `auipc x1, 0; addi x1, x1, 16; amoadd.w x3, x1, (x1); j .` -/
def amoImage : List Byte :=
  [0x97, 0x00, 0x00, 0x00, 0x93, 0x80, 0x00, 0x01, 0xaf, 0xa1, 0x10, 0x00, 0x6f, 0x00, 0x00, 0x00]

/-- Both harts have added to the word. -/
def addedTwice (p : DefaultPlatform) : Bool :=
  (p.log.filter fun r => r.2.kind.isWrite) ==
    [(.core0, ⟨.amoWrite, 0x80000010, 4, true⟩), (.core1, ⟨.amoWrite, 0x80000010, 4, true⟩)]

theorem exists_addedTwice :
    ∃ turns p, Reaches (fun _ => 0) (fun _ => []) amoImage turns p ∧ addedTwice p = true := by
  obtain ⟨turns, p, -, hq, h⟩ := exists_reaches (fun _ => 0) (fun _ => []) amoImage
    (fun _ => ⟨default, .construct default⟩) [[], [], []] addedTwice (by decide) (by decide +kernel)
  exact ⟨turns, p, h, hq⟩

theorem amo_atomic_second :
    ∃ turns p₀ p, Reaches (fun _ => 0) (fun _ => []) amoImage [] p₀ ∧ Steps Takes p₀ turns p ∧
      ∃ pre data fb post, trace turns =
        pre ++ .access .core1 (.write .amoWrite 0x80000010 4 data fb) :: post ∧
      ∃ f va src rd p' pre' buffer old,
        PerformsIn p₀ turns .core1 (.amo f va 4 src) rd pre'
          [.read .amoRead 0x80000010 4 buffer (.ok, old), .write .amoWrite 0x80000010 4 data fb]
          p' ∧
        pre = pre' ++ [.access .core1 (.read .amoRead 0x80000010 4 buffer (.ok, old))] ∧
        (deviceAt 0x80000010 = some ram →
          old = bytesAt (imageAt (fun _ => 0) amoImage) pre' 0x80000010 4) ∧
        f.update src 4 old = some data ∧
        (fb = .ok → rd ≠ 0 → (p'.hart .core1).core.GPR rd = Bytes.extend true 4 old) := by
  obtain ⟨turns, p, h, hq⟩ := exists_addedTwice
  have hlog : (HartId.core1, ⟨.amoWrite, 0x80000010, 4, true⟩) ∈ p.log :=
    List.mem_of_mem_filter (eq_of_beq hq ▸ List.mem_cons_of_mem _ List.mem_cons_self)
  obtain ⟨pre, data, fb, post, hcut⟩ := h.amo_of_log hlog rfl
  obtain ⟨p₀, h₀, hturns⟩ := h.start
  exact ⟨turns, p₀, p, h₀, hturns, pre, data, fb, post, hcut, amo_atomic h₀ hturns hcut⟩

/-! ## A word of AMOs -/

/-- The event stores something in the bytes from `addr` on. -/
def touches (addr size : Word) (e : PlatformEvent) : Bool :=
  (List.range size.toNat).any fun i => (stores (addr.toNat + i) e).isSome

/-- The event `w.2`, which `w.1` came before, is the write of the AMO of an instruction. -/
def Makes (p₀ : DefaultPlatform) (turns : List Turn) (addr size : Word)
    (w : List PlatformEvent × PlatformEvent) (op : AMOFunct × Word) : Prop :=
  ∃ k va rd p' pre' buffer old data fb,
    w.1 = pre' ++ [.access k (.read .amoRead addr size buffer (.ok, old))] ∧
    w.2 = .access k (.write .amoWrite addr size data fb) ∧
    PerformsIn p₀ turns k (.amo op.1 va size op.2) rd pre'
      [.read .amoRead addr size buffer (.ok, old), .write .amoWrite addr size data fb] p'

/-- A write has one operation. -/
theorem Makes.unique {p₀ : DefaultPlatform} {turns : List Turn} {addr size : Word}
    {w : List PlatformEvent × PlatformEvent} {op op' : AMOFunct × Word}
    (h : Makes p₀ turns addr size w op) (h' : Makes p₀ turns addr size w op') : op = op' := by
  obtain ⟨k, va, rd, p', pre, buffer, old, data, fb, hpre, hw, h⟩ := h
  obtain ⟨k', va', rd', p'', pre', buffer', old', data', fb', hpre', hw', h'⟩ := h'
  cases hw.symm.trans hw'
  obtain ⟨rfl, -⟩ := List.append_inj' (hpre.symm.trans hpre') rfl
  obtain ⟨hop, -, -⟩ := h.unique h' (List.cons_ne_nil _ _) (List.cons_ne_nil _ _)
  cases op
  cases op'
  cases hop
  rfl

section Word

variable {init : Nat → Byte} {l pre : List PlatformEvent} {e : PlatformEvent} {addr size : Word}

/-- What touches none of the bytes leaves them. -/
theorem bytesAt_snoc_of_not (h : touches addr size e = false) :
    bytesAt init (l ++ [e]) addr size = bytesAt init l addr size := by
  refine List.map_congr_left fun i hi => ?_
  have hnone : stores (addr.toNat + i) e = none := by
    simpa using List.any_eq_false.mp h i hi
  rw [memoryAt_snoc, hnone, Option.getD_none]

/-- After a store of the bytes they are what was stored. -/
theorem bytesAt_snoc_write {k : HartId} {kind : AccessKind} {data : List Byte}
    {fb : FuncReturnFeedback} (hat : deviceAt addr = some ram) (hlen : data.length = size.toNat) :
    bytesAt init (l ++ [.access k (.write kind addr size data fb)]) addr size = data := by
  refine List.ext_getElem (by simp [bytesAt, hlen]) fun i hi hi' => ?_
  have hin : addr.toNat ≤ addr.toNat + i ∧ addr.toNat + i < addr.toNat + size.toNat := by omega
  simp only [bytesAt, List.getElem_map, List.getElem_range]
  rw [memoryAt_snoc, stores, if_pos ⟨hat, hin⟩, Option.getD_some, Nat.add_sub_cancel_left]
  exact (List.getElem_eq_getD _).symm

/-- A write that touches the bytes at its address goes to RAM. -/
theorem touches_ram {k : HartId} {kind : AccessKind} {data : List Byte}
    {fb : FuncReturnFeedback}
    (h : touches addr size (.access k (.write kind addr size data fb)) = true) :
    deviceAt addr = some ram := by
  obtain ⟨i, -, hi⟩ := List.any_eq_true.mp h
  by_contra hno
  rw [stores, if_neg fun hat => hno hat.1] at hi
  cases hi

end Word

/-- The bytes go by the AMOs. -/
theorem each_foldlM {init : Nat → Byte} {l : List PlatformEvent} {addr size : Word}
    (heach : Each (AmoInRun init p₀ turns) l)
    (honly : ∀ e ∈ l, touches addr size e = true →
      ∃ k data fb, e = .access k (.write .amoWrite addr size data fb)) :
    ∃ ops, List.Forall₂ (Makes p₀ turns addr size)
        ((cuts l).filter fun w => touches addr size w.2) ops ∧
      ops.foldlM (fun old op => op.1.update op.2 size old) (bytesAt init [] addr size)
        = some (bytesAt init l addr size) := by
  induction l using List.reverseRecOn with
  | nil => exact ⟨[], .nil, rfl⟩
  | append_singleton l e ih =>
      obtain ⟨heach, hlast⟩ := Trace.each_snoc.mp heach
      obtain ⟨honly, honlye⟩ := List.forall_mem_append.mp honly
      obtain ⟨ops, hmakes, hfold⟩ := ih heach honly
      rw [cuts_snoc, List.filter_append]
      cases ht : touches addr size e with
      | false =>
          refine ⟨ops, ?_, ?_⟩
          · rwa [List.filter_cons_of_neg (by simp [ht]), List.filter_nil, List.append_nil]
          · rw [hfold, bytesAt_snoc_of_not ht]
      | true =>
          obtain ⟨k, data, fb, rfl⟩ := honlye e List.mem_cons_self ht
          obtain ⟨f, va, src, rd, p', pre', buffer, old, hop, rfl, hold, hdata, -⟩ :=
            hlast k addr size data fb rfl
          have hat := touches_ram ht
          refine ⟨ops ++ [(f, src)], ?_, ?_⟩
          · rw [List.filter_cons_of_pos (by exact ht), List.filter_nil]
            refine List.rel_append hmakes (.cons ?_ .nil)
            exact ⟨k, va, rd, p', pre', buffer, old, data, fb, rfl, rfl, hop⟩
          · have hread : bytesAt init
                (pre' ++ [.access k (.read .amoRead addr size buffer (.ok, old))]) addr size
                  = old := by
              rw [hold hat]
              refine List.map_congr_left fun i _ => ?_
              rw [memoryAt_snoc]
              rfl
            rw [List.foldlM_append, hfold, hread,
              bytesAt_snoc_write hat (AMOFunct.length_update hdata)]
            exact (bind_pure _).trans hdata

/-- The bytes of RAM are those that were stored last. -/
theorem HoldsLast.bytesAt {init : Nat → Byte} {events : List PlatformEvent} {m : MMIOMem}
    {addr : Word} (hat : deviceAt addr = some ram)
    (hlast : ∀ i, m.memData i = memoryAt init events (0x80000000 + i)) (size : Word) :
    bytesAt init events addr size = m.bytesAt (addr - 0x80000000) size := by
  have hoff : 0x80000000 + (addr - 0x80000000).toNat = addr.toNat := toNat_offset hat
  refine List.map_congr_left fun i _ => ?_
  rw [hlast, ← Nat.add_assoc, hoff]

/-- Where nothing but AMOs touches a word of RAM, it is at the end what they make of that of the
image, one after the other, each with the operation of the instruction of its step. -/
theorem amo_no_lost_update (h : Reaches memData beyond bin_data [] p₀)
    (hturns : Steps Takes p₀ turns p) {addr size : Word} (hat : deviceAt addr = some ram)
    (honly : ∀ e ∈ trace turns, touches addr size e = true →
      ∃ k data fb, e = .access k (.write .amoWrite addr size data fb)) :
    ∃ ops m, List.Forall₂ (Makes p₀ turns addr size)
        ((cuts (trace turns)).filter fun w => touches addr size w.2) ops ∧
      (p.sysBus.obj ram).dev = .inl m ∧
      ops.foldlM (fun old op => op.1.update op.2 size old)
        ((imageRAM memData bin_data).bytesAt (addr - 0x80000000) size)
          = some (m.bytesAt (addr - 0x80000000) size) := by
  obtain ⟨ops, hmakes, hfold⟩ := each_foldlM (h.amoInRun hturns) honly
  obtain ⟨m, hm, hlast⟩ := (h.append hturns).holdsLast
  have hstart (i : Nat) : (imageRAM memData bin_data).memData i
      = memoryAt (imageAt memData bin_data) [] (0x80000000 + i) := by
    rw [memoryAt, List.foldl_nil, imageAt, Nat.add_sub_cancel_left]
  refine ⟨ops, m, hmakes, hm, ?_⟩
  rw [← HoldsLast.bytesAt hat hlast, ← HoldsLast.bytesAt hat hstart]
  exact hfold

/-- What touches a byte is a write of a hart, and is in the log. -/
theorem Reaches.log_of_touches (h : Reaches memData beyond bin_data turns p) {addr size : Word}
    {e : PlatformEvent} (he : e ∈ trace turns) (ht : touches addr size e = true) :
    ∃ k kind a s data fb, e = .access k (.write kind a s data fb) ∧ kind.isWrite = true ∧
      (k, ⟨kind, a, s, decide (fb = .ok)⟩) ∈ p.log := by
  obtain ⟨i, -, hi⟩ := List.any_eq_true.mp ht
  obtain ⟨b, b', hstep⟩ := h.event he
  cases hstep with
  | call => cases hi
  | access k hstep =>
      cases hstep with
      | read => cases hi
      | write hkind =>
          refine ⟨k, _, _, _, _, _, rfl, hkind, ?_⟩
          rw [h.log]
          exact List.mem_filterMap.mpr ⟨_, he, rfl⟩

theorem amo_no_lost_update_twice :
    ∃ turns p₀ p, Reaches (fun _ => 0) (fun _ => []) amoImage [] p₀ ∧ Steps Takes p₀ turns p ∧
      addedTwice p = true ∧
      ∃ ops m, List.Forall₂ (Makes p₀ turns 0x80000010 4)
          ((cuts (trace turns)).filter fun w => touches 0x80000010 4 w.2) ops ∧
        (p.sysBus.obj ram).dev = .inl m ∧
        ops.foldlM (fun old op => op.1.update op.2 4 old)
          ((imageRAM (fun _ => 0) amoImage).bytesAt (0x80000010 - 0x80000000) 4)
            = some (m.bytesAt (0x80000010 - 0x80000000) 4) := by
  obtain ⟨turns, p, h, hq⟩ := exists_addedTwice
  obtain ⟨p₀, h₀, hturns⟩ := h.start
  refine ⟨turns, p₀, p, h₀, hturns, hq,
    amo_no_lost_update h₀ hturns (by decide) fun e he ht => ?_⟩
  obtain ⟨k, kind, a, s, data, fb, rfl, hkind, hlog⟩ := h.log_of_touches he ht
  have hmem : _ ∈ p.log.filter fun r => r.2.kind.isWrite := List.mem_filter.mpr ⟨hlog, hkind⟩
  rw [eq_of_beq hq] at hmem
  simp only [List.mem_cons, List.not_mem_nil, or_false, Prod.mk.injEq, BusAccess.mk.injEq] at hmem
  rcases hmem with ⟨rfl, rfl, rfl, rfl, -⟩ | ⟨rfl, rfl, rfl, rfl, -⟩
  · exact ⟨_, _, _, rfl⟩
  · exact ⟨_, _, _, rfl⟩

end Runs

end DefaultPlatform

end MEmu
