import MEmu.StepEffect

/-!
# Invariants of the core

The functions through which a completed step writes the core, and what a property
of the core needs from each of them to be kept by every step.  The CSR writes are
restricted to those in `W`, so that a property that one write breaks is still kept
by the steps that do not make that write.
-/

namespace MEmu

/-- `I` is kept by every function through which a step writes the core. -/
structure CoreInvariant (W : CSRAddr → Word → Prop) (I : RV64Core → Prop) : Prop where
  beginStep {c : RV64Core} (h : I c) : I (RV64Core.beginStep { c with trapLog := [] })
  trapped {c : RV64Core} (h : I c) (cause tval : Word) : I (c.trapped cause tval)
  retire {c : RV64Core} (h : I c) (comp : Bool) (flags : ExecFlags) : I (c.retire comp flags)
  setGPR {c : RV64Core} (h : I c) (rd : BitVec 5) (value : Word) : I (c.setGPR rd value)
  setPC {c : RV64Core} (h : I c) (npc : Word) : I (c.setPC npc)
  csrWrite {c c' : RV64Core} {a : CSRAddr} {v : Word} (h : I c) (hW : W a v)
    (hmtvec : a = .mtvec → TrapVector.mode v ≤ 1) (hw : c.csrWriteCase v a = some c') : I c'
  returnM {c : RV64Core} (h : I c) : I c.returnM
  returnS {c : RV64Core} (h : I c) : I c.returnS

section Step

variable {β : Type} [MMIOBus β] {W : CSRAddr → Word → Prop} {I : RV64Core → Prop}

theorem Retires.keeps (hI : CoreInvariant W I) {inst : BitVec 32} {m m' : Machine β}
    {flags : ExecFlags} (h : Retires inst m flags m') (hm : I m.core)
    (hW : ∀ a v, csrWriteOf inst m.core = some (a.val, v) → W a v) : I m'.core := by
  cases h with
  | set rd value => exact hI.setGPR hm rd value
  | jump rd link npc => exact hI.setPC (hI.setGPR hm rd link) npc
  | mem op rd value s hr => exact hI.setGPR hm rd value
  | csr a rd value old c hperm hwrite hc hmtvec =>
      exact hI.setGPR (hI.csrWrite hm (hW a value hwrite) hmtvec hc) rd old
  | mret hmode => exact hI.returnM hm
  | sret hperm => exact hI.returnS hm
  | sfence vaddr asid hperm => exact hm

/-- A completed step keeps an invariant, if the CSR write it makes is in `W`. -/
theorem CoreInvariant.step (hI : CoreInvariant W I) {m m' : Machine β} {fb : FuncReturnFeedback}
    (h : stepCoreAPI.run m = .ok fb m') (hm : I m.core)
    (hW : ∀ inst s a v, fetchInst.run m = .ok (some inst) { core := m.begun, mem := s } →
      csrWriteOf inst m.begun = some (a.val, v) → W a v) : I m'.core := by
  have hbegun : I m.begun := hI.beginStep hm
  rcases (h ▸ stepCoreAPI_effect m : StepEffect m (.ok fb m')).cases_ok with
    ⟨cause, tval, comp, flags, s, s', -, -, rfl⟩ | ⟨inst, flags, s, m₁, hfetch, -, hr, rfl⟩
  · exact hI.retire (hI.trapped hbegun cause tval) comp flags
  · refine hI.retire (hr.keeps hI hbegun fun a v hwrite => ?_) _ flags
    exact hW inst s a v hfetch hwrite

end Step

end MEmu
