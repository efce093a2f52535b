import MEmu.ClintRegisters
import MEmu.PlatformInterrupts

/-!
# Timers and software interrupts on the platform

The core-local interruptor ticks once in each turn, and its other registers hold what was
stored to them last.  So the timer line and the software line of a hart in a turn are a
matter of the number of turns and of the stores that both harts have made by then.
-/

namespace MEmu

open Labelled (Steps)
open Run (Sat)
open RVCoreLocalInt (Region InRegs rewritten)

/-! ## The registers over a run of the device -/

namespace RVCoreLocalInt

variable {nr_hart : Nat} {c c' : RVCoreLocalInt nr_hart} {start_addr size : Word}
  {buffer : List Byte}

instance (region : Region) (start size : Nat) : Decidable (region.Holds nr_hart start size) :=
  inferInstanceAs (Decidable (_ ∧ _))

instance (start size : Nat) : Decidable (InRegs nr_hart start size) :=
  decidable_of_iff (Region.Holds nr_hart .mtime start size ∨
      Region.Holds nr_hart .mtimecmp start size ∨ Region.Holds nr_hart .msip start size) <| by
    constructor
    · rintro (h | h | h)
      exacts [⟨_, h⟩, ⟨_, h⟩, ⟨_, h⟩]
    · rintro ⟨region, h⟩
      cases region
      exacts [.inl h, .inr (.inl h), .inr (.inr h)]

/-- A store of no bytes. -/
theorem regByte_store_zero (hbits : c.Bits) (region region' : Region) {start i : Nat}
    (hi : i < region'.bytes nr_hart) (buffer : List Byte) :
    (c.store region start 0 buffer).regByte region' i = c.regByte region' i := by
  have hno : ¬(start ≤ i ∧ i < start + 0) := by omega
  by_cases hne : region' = region
  · subst hne
    by_cases hmsip : region' = .msip
    · subst hmsip
      have hmask : (fun k => c.msip k &&& 1) = c.msip := funext hbits
      show arrayByte (n := 4) (fun k => copyInto (n := 4) k (c.msip k) start 0 buffer &&& 1) i
        = arrayByte (n := 4) c.msip i
      rw [arrayByte_and_one, arrayByte_copyInto (n := 4) c.msip buffer (by decide) (by decide) hi,
        if_neg hno, ← arrayByte_and_one, hmask]
    · rw [regByte_store hmsip buffer hi, if_neg hno]
  · exact regByte_other hne _ _ _ _

/-- The offset that an access is decoded to. -/
theorem base_add_of_decode {region : Region} {start : Nat}
    (h : decode nr_hart start_addr size = some (region, start)) :
    region.base + start = start_addr.toNat := by
  have hsub {base : Word} (hle : base ≤ start_addr) :
      base.toNat + (start_addr - base).toNat = start_addr.toNat := by
    rw [BitVec.toNat_sub_of_le hle]
    exact Nat.add_sub_cancel' (BitVec.le_def.mp hle)
  unfold decode at h
  split_ifs at h with h4000 htime
  · cases h
    exact hsub htime.1
  · cases h
    exact hsub h4000
  · cases h
    exact Nat.zero_add _

/-- A write that returns has stored its bytes where it lies in one of the blocks, and none
elsewhere. -/
theorem doWrite_ok {fb : Bool} (hn : nr_hart ≤ 4095)
    (hr : (doWrite start_addr size buffer).run c = .ok fb c') :
    (∃ region : Region, region.Holds nr_hart start_addr.toNat size.toNat ∧ 1 ≤ size.toNat ∧
        c' = c.store region (start_addr.toNat - region.base) size.toNat buffer) ∨
      (¬(1 ≤ size.toNat ∧ InRegs nr_hart start_addr.toNat size.toNat) ∧
        (c' = c ∨ ∃ region start, decode nr_hart start_addr size = some (region, start) ∧
          c' = c.store region start 0 buffer)) := by
  by_cases hin : 1 ≤ size.toNat ∧ InRegs nr_hart start_addr.toNat size.toNat
  · obtain ⟨hsize, region, hholds⟩ := hin
    have hwrap : start_addr.toNat + size.toNat < 2 ^ 64 := by
      have h := hholds.2
      cases region <;> simp only [Region.base, Region.bytes] at h <;> omega
    rw [run_doWrite_of_holds hn hsize hwrap hholds] at hr
    cases hr
    exact .inl ⟨region, hholds, hsize, rfl⟩
  · refine .inr ⟨hin, ?_⟩
    unfold doWrite at hr
    cases hdec : decode nr_hart start_addr size with
    | none =>
        rw [hdec] at hr
        cases hr
        exact .inl rfl
    | some r =>
        obtain ⟨region, start⟩ := r
        rw [hdec] at hr
        dsimp only at hr
        split at hr
        · rename_i hfits
          have hzero : size.toNat = 0 := by
            by_contra hpos
            have hwrap : start_addr.toNat + size.toNat < 2 ^ 64 := by
              have hbase := base_add_of_decode hdec
              cases region <;> simp only [Region.base, Region.bytes] at hbase hfits <;> omega
            have hsize : 1 ≤ size.toNat := by omega
            have h := (decode_eq_some hn hsize hwrap region start).mp hdec
            exact hin ⟨hsize, region, h.1⟩
          cases hr
          rw [hzero]
          exact .inr ⟨region, start, rfl, rfl⟩
        · cases hr

end RVCoreLocalInt

namespace DevMove

/-- The byte at an offset of the register file after a move, where it was `old`.  Only a store
that lies in one of the register blocks is accepted. -/
def clintByte (off : Nat) (old : Byte) : DevMove → Byte
  | .access (.write begin_addr size data) =>
      if 1 ≤ size.toNat ∧ InRegs 2 begin_addr.toNat size.toNat then
        rewritten begin_addr.toNat size.toNat data off old
      else old
  | _ => old

/-- An update of the interrupt lines. -/
def isUpdate : DevMove → Bool
  | .call (.updateIntState _ _ _) => true
  | _ => false

/-- A store to `mtime`. -/
def setsTime : DevMove → Prop
  | .access (.write begin_addr _ _) => 0xbff8 ≤ begin_addr
  | _ => False

end DevMove

section Device

variable {c c' : CemuClintAdapter} {a : DevMove} {moves : List DevMove}

/-- A write that the bus delivers is one of the register file. -/
theorem clint_writeBuffer_ok {begin_addr size : Word} {data : List Byte}
    {fb : FuncReturnFeedback}
    (hr : (CemuClintAdapter.writeBuffer begin_addr size data).run c = .ok fb c') :
    ∃ fb, (RVCoreLocalInt.doWrite begin_addr size data).run c.intCtrl = .ok fb c'.intCtrl := by
  have hsat : Sat c (CemuClintAdapter.writeBuffer begin_addr size data)
      (fun _ c' => ∃ fb, (RVCoreLocalInt.doWrite begin_addr size data).run c.intCtrl
        = .ok fb c'.intCtrl) (fun _ _ => True) := by
    refine .bind (.get (.ite (fun _ => .bind (CemuClintAdapter.onDev_sat ?_)) fun _ =>
      .throw trivial))
    exact .intro (fun fb _ hw => .pure ⟨fb, hw⟩) fun _ _ _ => trivial
  exact hsat.ok hr

/-- A read that the bus delivers changes nothing. -/
theorem clint_readBuffer_ok {begin_addr size : Word} {buffer : List Byte}
    {r : FuncReturnFeedback × List Byte}
    (hr : (CemuClintAdapter.readBuffer begin_addr size buffer).run c = .ok r c') :
    c'.intCtrl = c.intCtrl := by
  have hsat : Sat c (CemuClintAdapter.readBuffer begin_addr size buffer)
      (fun _ c' => c'.intCtrl = c.intCtrl) (fun _ _ => True) := by
    refine .bind (.get (.ite (fun _ => .bind (CemuClintAdapter.onDev_sat ?_)) fun _ =>
      .throw trivial))
    exact (RVCoreLocalInt.doRead_same _ _ _).mono (fun _ _ h => .pure h) fun _ _ _ => trivial
  exact hsat.ok hr

/-- A move leaves in the registers other than `mtime` what it stores. -/
theorem ClintMove.regs (h : ClintMove c a c') (hbits : c.intCtrl.Bits) :
    c'.intCtrl.Bits ∧ ∀ region ≠ Region.mtime, ∀ i < region.bytes 2,
      c'.intCtrl.regByte region i = a.clintByte (region.base + i) (c.intCtrl.regByte region i) := by
  cases h with
  | read hr =>
      rw [clint_readBuffer_ok hr]
      exact ⟨hbits, fun _ _ _ _ => rfl⟩
  | @write begin_addr size data _ _ hr =>
      obtain ⟨fb, hw⟩ := clint_writeBuffer_ok hr
      refine ⟨(RVCoreLocalInt.doWrite_bits hbits _ _ _).ok hw, fun region hregion i hi => ?_⟩
      rcases RVCoreLocalInt.doWrite_ok (by decide) hw with
        ⟨region', hholds, hsize, hc'⟩ | ⟨hout, hc' | ⟨region', start, -, hc'⟩⟩
      · rw [hc', DevMove.clintByte, if_pos ⟨hsize, region', hholds⟩]
        have hbyte := RVCoreLocalInt.regByte_store_rewritten (c := c.intCtrl) (by decide) hholds
          hsize (Nat.le_add_right region.base i) (Nat.add_lt_add_left hi _) data
        rwa [Nat.add_sub_cancel_left] at hbyte
      · rw [hc', DevMove.clintByte, if_neg hout]
      · rw [hc', DevMove.clintByte, if_neg hout,
          RVCoreLocalInt.regByte_store_zero hbits region' region hi]
  | update hr =>
      obtain ⟨hctrl, -⟩ := CemuClintAdapter.updateIntState_sat.ok hr
      rw [hctrl]
      refine ⟨hbits, fun region hregion i hi => ?_⟩
      cases region with
      | mtime => exact absurd rfl hregion
      | mtimecmp | msip => rfl
  | step => exact ⟨hbits, fun _ _ _ _ => rfl⟩

/-- An update ticks, and nothing but a store to `mtime` moves it otherwise. -/
theorem ClintMove.time (h : ClintMove c a c') (hno : ¬a.setsTime) :
    c'.intCtrl.mtime = c.intCtrl.mtime + BitVec.ofNat 64 (if a.isUpdate then 1 else 0) := by
  cases h with
  | read hr =>
      rw [clint_readBuffer_ok hr]
      exact (BitVec.add_zero _).symm
  | @write begin_addr size data _ _ hr =>
      obtain ⟨fb, hw⟩ := clint_writeBuffer_ok hr
      have hkeep (region : Region) (hregion : region ≠ .mtime) (start n : Nat) :
          (c.intCtrl.store region start n data).mtime = c.intCtrl.mtime := by
        cases region with
        | mtime => exact absurd rfl hregion
        | mtimecmp | msip => rfl
      have htime : c'.intCtrl.mtime = c.intCtrl.mtime := by
        rcases RVCoreLocalInt.doWrite_ok (by decide) hw with
          ⟨region, hholds, -, hc'⟩ | ⟨-, hc' | ⟨region, start, hdec, hc'⟩⟩
        · rw [hc']
          refine hkeep region (fun heq => hno ?_) _ _
          subst heq
          exact BitVec.le_def.mpr hholds.1
        · rw [hc']
        · rw [hc']
          refine hkeep region (fun heq => hno ?_) _ _
          subst heq
          exact BitVec.le_def.mpr ((RVCoreLocalInt.base_add_of_decode hdec) ▸
            Nat.le_add_right _ _)
      exact htime.trans (BitVec.add_zero _).symm
  | update hr =>
      obtain ⟨hctrl, -⟩ := CemuClintAdapter.updateIntState_sat.ok hr
      rw [hctrl]
      rfl
  | step => exact (BitVec.add_zero _).symm

/-- The registers hold what was stored last. -/
theorem clint_regs (h : Steps ClintMove c moves c') (hbits : c.intCtrl.Bits) :
    c'.intCtrl.Bits ∧ ∀ region ≠ Region.mtime, ∀ i < region.bytes 2,
      c'.intCtrl.regByte region i
        = moves.foldl (fun b a => a.clintByte (region.base + i) b) (c.intCtrl.regByte region i) := by
  induction h with
  | nil => exact ⟨hbits, fun _ _ _ _ => rfl⟩
  | snoc _ hmove ih =>
      obtain ⟨hbits', hregs⟩ := ih
      obtain ⟨hbits'', hstep⟩ := hmove.regs hbits'
      refine ⟨hbits'', fun region hregion i hi => ?_⟩
      rw [hstep region hregion i hi, hregs region hregion i hi, List.foldl_append]
      rfl

/-- The time is the number of updates. -/
theorem clint_time (h : Steps ClintMove c moves c') (hno : ∀ a ∈ moves, ¬a.setsTime) :
    c'.intCtrl.mtime = c.intCtrl.mtime + BitVec.ofNat 64 (moves.countP DevMove.isUpdate) := by
  induction h with
  | nil => exact (BitVec.add_zero _).symm
  | @snoc c₁ c₂ labels a _ hmove ih =>
      rw [hmove.time (hno a (List.mem_append_right _ (List.mem_singleton_self a))),
        ih fun b hb => hno b (List.mem_append_left _ hb), List.countP_append,
        List.countP_singleton, BitVec.ofNat_add, BitVec.add_assoc]

end Device

/-! ## The registers over a run of the platform -/

/-- The bytes of one word of an array. -/
theorem arrayByte_word {len n j : Nat} (a : Fin len → BitVec (8 * n)) (k : Fin len) (hj : j < n) :
    arrayByte a (n * k.val + j) = Bytes.byte j (a k) := by
  have hdiv : (n * k.val + j) / n = k.val := by
    rw [Nat.mul_add_div (Nat.zero_lt_of_lt hj), Nat.div_eq_of_lt hj, Nat.add_zero]
  have hmod : (n * k.val + j) % n = j := by
    rw [Nat.mul_add_mod, Nat.mod_eq_of_lt hj]
  have hlt : (n * k.val + j) / n < len := by
    rw [hdiv]
    exact k.isLt
  have hindex : (⟨(n * k.val + j) / n, hlt⟩ : Fin len) = k := Fin.ext hdiv
  rw [arrayByte, dif_pos hlt, hindex, hmod]

namespace DefaultPlatform

/-- What happens to the core-local interruptor. -/
abbrev clintMoves (events : List PlatformEvent) : List DevMove :=
  events.filterMap (PlatformEvent.concerns rvCLInt)

/-- The byte at an offset of the register file after some events. -/
def clintByteAt (events : List PlatformEvent) (off : Nat) : Byte :=
  (clintMoves events).foldl (fun b a => a.clintByte off b) 0

/-- The compare value of a hart after some events. -/
def compareAt (events : List PlatformEvent) (k : Fin 2) : Word :=
  Bytes.toWord ((List.range 8).map fun j => clintByteAt events (0x4000 + (8 * k.val + j)))

/-- The software interrupt of a hart after some events. -/
def softwareAt (events : List PlatformEvent) (k : Fin 2) : Bool :=
  (clintByteAt events (4 * k.val)).getLsbD 0

section Runs

variable {memData : Nat → Byte} {beyond : Nat → List Byte} {bin_data : List Byte}
  {turns : List Turn} {p p' : DefaultPlatform} {t : Turn}

theorem clintMoves_append (events events' : List PlatformEvent) :
    clintMoves (events ++ events') = clintMoves events ++ clintMoves events' :=
  List.filterMap_append

/-- The accesses of a hart update no timer. -/
theorem updates_of_access (k : HartId) (events : List BusEvent) :
    (clintMoves (events.map (PlatformEvent.access k))).countP DevMove.isUpdate = 0 := by
  refine List.countP_eq_zero.mpr fun a ha => ?_
  obtain ⟨e, he, hconcerns⟩ := List.mem_filterMap.mp ha
  obtain ⟨e, -, rfl⟩ := List.mem_map.mp he
  rw [(PlatformEvent.concerns_access.mp hconcerns).2]
  exact Bool.false_ne_true

/-- The time ticks once in a turn. -/
theorem TurnEffect.updates {read : List Byte} {new : List PlatformEvent}
    (h : TurnEffect p read p' new) : (clintMoves new).countP DevMove.isUpdate = 1 := by
  cases h with
  | @mk line₁ line₂ b₁ b₂ events₀ events₁ m₀ m₁ served _ _ _ _ hserved _ _ _ =>
      have hnone : clintMoves served = [] := by
        generalize p'.sysBus = b, p'.counter = n at hserved
        cases hserved with
        | serve => rfl
        | wait => rfl
      have hfirst (events : List PlatformEvent) (c₁ c₂ : DevCall) :
          clintMoves (.call rvCLInt c₁ :: .call rvPLIC c₂ :: events) = .call c₁ :: clintMoves events :=
        rfl
      rw [hfirst, clintMoves_append, clintMoves_append, hnone, List.append_nil, List.countP_cons,
        List.countP_append, updates_of_access, updates_of_access]
      rfl

/-- The timer is updated once in each turn. -/
theorem updates_of_turns {p₀ : DefaultPlatform} (h : Steps Takes p₀ turns p) :
    (clintMoves (trace turns)).countP DevMove.isUpdate = turns.length := by
  induction h with
  | nil => rfl
  | snoc _ ht ih =>
      rw [trace, List.flatMap_append, clintMoves_append, List.countP_append, ih,
        List.flatMap_singleton, ht.effect.updates, List.length_append, List.length_singleton]

/-- The registers of the core-local interruptor of a reached platform. -/
theorem clint_registers {c : CemuClintAdapter} (h : Reaches memData beyond bin_data turns p)
    (hc : (p.sysBus.obj rvCLInt).dev = .inr (.rvCLInt c)) (k : Fin 2) :
    c.intCtrl.mtimecmp k = compareAt (trace turns) k ∧
      (c.intCtrl.msip k &&& 1 != 0) = softwareAt (trace turns) k ∧
      ((∀ a ∈ clintMoves (trace turns), ¬a.setsTime) →
        c.intCtrl.mtime = BitVec.ofNat 64 turns.length) := by
  obtain ⟨c', hc', hrun⟩ := clint_run h
  cases hc.symm.trans hc'
  obtain ⟨-, hregs⟩ := clint_regs hrun fun _ => BitVec.zero_and
  have hbyte (region : Region) (hregion : region ≠ .mtime) (i : Nat) (hi : i < region.bytes 2) :
      c.intCtrl.regByte region i = clintByteAt (trace turns) (region.base + i) := by
    rw [hregs region hregion i hi]
    have hzero : (CemuClintAdapter.new default default).intCtrl.regByte region i = 0 := by
      cases region <;>
        simp [RVCoreLocalInt.regByte, arrayByte, CemuClintAdapter.new, RVCoreLocalInt.new, Bytes.byte]
    rw [hzero]
    rfl
  have hk := k.isLt
  refine ⟨Bytes.byte_ext (n := 8) fun j hj => ?_, ?_, fun hno => ?_⟩
  · have hmod := Bytes.byte_toWord
      ((List.range 8).map fun j => clintByteAt (trace turns) (0x4000 + (8 * k.val + j)))
      (Nat.le_refl 8) hj
    rw [BitVec.setWidth_eq] at hmod
    rw [compareAt, hmod, ← arrayByte_word (n := 8) c.intCtrl.mtimecmp k hj]
    refine (hbyte .mtimecmp (by rintro ⟨⟩) (8 * k.val + j) ?_).trans ?_
    · show 8 * k.val + j < 8 * 2
      omega
    · simp [List.getD, hj, Region.base]
  · rw [and_one_bne, softwareAt]
    have hlow := hbyte .msip (by rintro ⟨⟩) (4 * k.val) (show 4 * k.val < 4 * 2 by omega)
    rw [Region.base, Nat.zero_add] at hlow
    rw [← hlow]
    have hword := arrayByte_word (n := 4) c.intCtrl.msip k (j := 0) (by decide)
    rw [Nat.add_zero] at hword
    rw [RVCoreLocalInt.regByte, hword]
    simp [Bytes.byte]
  · rw [clint_time hrun hno]
    obtain ⟨hsize, hbuilt, hturns⟩ := h
    rw [updates_of_turns hturns]
    exact BitVec.zero_add _

/-- In every turn of every run the lines that a hart sees of the core-local interruptor are these:
the software line is the bit that was stored to it last, and the timer line is up where its compare
value, as stored last, is at most the number of turns before, if no hart has set the time. -/
theorem local_interrupts (h : Reaches memData beyond bin_data turns p) (ht : Takes p t p')
    (k : HartId) :
    ∃ b line events m, HartStep (p.hart k) b line events m ∧ p'.hart k = m.hart ∧
      line.msip = softwareAt (trace turns) k.index ∧
      ((∀ a ∈ clintMoves (trace turns), ¬a.setsTime) → turns.length + 1 < 2 ^ 64 →
        (line.mtip = true ↔ (compareAt (trace turns) k.index).toNat ≤ turns.length)) := by
  obtain ⟨before, b, line, own, m, hturn⟩ := h.hartTurn ht k
  obtain ⟨u, c, q, hd, rfl⟩ := hturn.lines
  obtain ⟨hcompare, hsoftware, htime⟩ := clint_registers h hd.rvCLInt k.index
  refine ⟨b, _, own, m, hturn.step, hturn.ends, ?_, fun hno hlt => ?_⟩
  · rw [← hsoftware]
    cases k <;> rfl
  · have hline : (raised u.cemuUartliteDev c.intCtrl q.intCtrl k).mtip
        = timerLine c.intCtrl k.index := by
      cases k <;> rfl
    have hsucc : (BitVec.ofNat 64 turns.length + 1 : Word).toNat = turns.length + 1 := by
      rw [show (1 : Word) = BitVec.ofNat 64 1 from rfl, ← BitVec.ofNat_add, BitVec.toNat_ofNat,
        Nat.mod_eq_of_lt hlt]
    rw [hline, timerLine, decide_eq_true_iff, htime hno, hcompare, BitVec.lt_def, hsucc]
    exact Nat.lt_succ_iff

/-- `lui x1, 0x2000; addi x2, x0, 1; sw x2, 4(x1); j .` -/
def softwareImage : List Byte :=
  [0xb7, 0x00, 0x00, 0x02, 0x13, 0x01, 0x10, 0x00, 0x23, 0xa2, 0x20, 0x00, 0x6f, 0x00, 0x00, 0x00]

/-- Hart 1 is interrupted and hart 0 is not, and the harts have accessed only that register of
the core-local interruptor. -/
def interruptedOne (p : DefaultPlatform) : Bool :=
  (p.hart .core1).core.csrIntPending.getLsbD IntType.mSw.val &&
  !(p.hart .core0).core.csrIntPending.getLsbD IntType.mSw.val &&
  p.log.all fun r => decide (deviceAt r.2.addr = some rvCLInt → r.2.addr = 0x2000004)

/-- The turn after the store, where no hart has set the time. -/
theorem local_interrupts_software :
    ∃ turns p t p', Reaches (fun _ => 0) (fun _ => []) softwareImage turns p ∧ Takes p t p' ∧
      interruptedOne p' = true ∧ turns.length = 3 ∧
      ∃ b line events m, HartStep (p.hart .core1) b line events m ∧ p'.hart .core1 = m.hart ∧
        line.msip = softwareAt (trace turns) 1 ∧
        (line.mtip = true ↔ (compareAt (trace turns) 1).toNat ≤ turns.length) := by
  obtain ⟨turns, p', hreads, hq, h⟩ := exists_reaches (fun _ => 0) (fun _ => []) softwareImage
    (fun _ => ⟨default, .construct default⟩) [[], [], [], []] interruptedOne (by decide)
    (by decide +kernel)
  obtain ⟨turns, t, p, rfl, hp, ht⟩ := h.last (by rintro rfl; cases hreads)
  have hlength : turns.length = 3 := by
    have hmap := congrArg List.length hreads
    rw [List.length_map, List.length_append] at hmap
    exact Nat.succ.inj hmap
  have hno : ∀ a ∈ clintMoves (trace turns), ¬a.setsTime := by
    intro a ha
    cases a with
    | call c => exact id
    | access e =>
        obtain ⟨hart, access, rfl, hat, -, hlog⟩ := hp.access_log ha
        have hall := hq
        rw [interruptedOne, Bool.and_eq_true, List.all_eq_true, ht.effect.records] at hall
        have haddr := of_decide_eq_true (hall.2 _ (List.mem_append_left _ hlog)) hat
        cases access with
        | read => exact id
        | write kind addr size data fb =>
            obtain rfl : addr = 0x2000004 := haddr
            exact fun hle : (0xbff8 : Word) ≤ 0x2000004 - (regionOf rvCLInt).1 =>
              absurd hle (by decide)
  obtain ⟨b, line, events, m, hstep, hhart, hline, htimer⟩ := local_interrupts hp ht .core1
  exact ⟨turns, p, t, p', hp, ht, hq, hlength, b, line, events, m, hstep, hhart, hline,
    htimer hno (by omega)⟩

end Runs

end DefaultPlatform

end MEmu
