import Mathlib.Logic.Function.Basic
import Mathlib.Tactic.Common

/-!
# Caches of entries that cover many keys

A cache holds entries in slots.  An entry covers a set of keys, and `truth` says
which entry a key should be answered with.  A key is fresh when its user may rely
on the cache.  `Coherent` speaks of fresh keys only: a slot that covers one holds
its true entry.  Nothing is said about what the cache holds for other keys, so a
change of `truth` costs no more than the freshness of the keys it changes.

`Apart` is the weaker demand that no two entries are in conflict, whatever they say.
-/

namespace Coherence

variable {ι κ ε : Type*} {covers : ε → κ → Prop} {truth truth' : κ → Option ε}
  {fresh fresh' : κ → Prop} {slots slots' : ι → Option ε}

/-- Slots answer fresh keys truly, and no entry is held twice. -/
structure Coherent (covers : ε → κ → Prop) (truth : κ → Option ε) (fresh : κ → Prop)
    (slots : ι → Option ε) : Prop where
  agree : ∀ k, fresh k → ∀ i e, slots i = some e → covers e k → truth k = some e
  distinct : ∀ i j e, slots i = some e → slots j = some e → i = j

theorem Coherent.empty : Coherent covers truth fresh fun _ : ι => none :=
  ⟨nofun, nofun⟩

/-- At most one slot covers a fresh key. -/
theorem Coherent.unique (h : Coherent covers truth fresh slots) {k : κ} (hk : fresh k) {i j : ι}
    {e e' : ε} (hi : slots i = some e) (hj : slots j = some e') (he : covers e k)
    (he' : covers e' k) : i = j := by
  have heq : e = e' := Option.some.inj ((h.agree k hk i e hi he).symm.trans (h.agree k hk j e' hj he'))
  exact h.distinct i j e hi (heq ▸ hj)

/-- A miss is filled: a slot takes the entry of a key that no slot covers. -/
theorem Coherent.fill [DecidableEq ι] (h : Coherent covers truth fresh slots) {k : κ} {e : ε} (i : ι)
    (hmiss : ∀ j e', slots j = some e' → ¬covers e' k) (hk : covers e k)
    (htruth : ∀ k', covers e k' → truth k' = some e) :
    Coherent covers truth fresh (Function.update slots i (some e)) := by
  have hother : ∀ j, Function.update slots i (some e) j = some e → j = i := by
    intro j hj
    by_contra hne
    rw [Function.update_of_ne hne] at hj
    exact hmiss j e hj hk
  refine ⟨fun k' hk' j e' hj hcov => ?_, fun j j' e' hj hj' => ?_⟩
  · by_cases hji : j = i
    · rw [hji, Function.update_self, Option.some.injEq] at hj
      exact hj ▸ htruth k' (hj ▸ hcov)
    · rw [Function.update_of_ne hji] at hj
      exact h.agree k' hk' j e' hj hcov
  · by_cases hji : j = i <;> by_cases hji' : j' = i
    · rw [hji, hji']
    · rw [hji, Function.update_self, Option.some.injEq] at hj
      exact hji.trans (hother j' (hj ▸ hj')).symm
    · rw [hji', Function.update_self, Option.some.injEq] at hj'
      exact (hother j (hj' ▸ hj)).trans hji'.symm
    · rw [Function.update_of_ne hji] at hj
      rw [Function.update_of_ne hji'] at hj'
      exact h.distinct j j' e' hj hj'

/-- Entries are dropped.  A key may become fresh once no slot covers it. -/
theorem Coherent.invalidate (h : Coherent covers truth fresh slots)
    (hslots : ∀ i e, slots' i = some e → slots i = some e)
    (hfresh : ∀ k, fresh' k → fresh k ∨ ∀ i e, slots' i = some e → ¬covers e k) :
    Coherent covers truth fresh' slots' := by
  refine ⟨fun k hk i e hi he => ?_, fun i j e hi hj => h.distinct i j e (hslots i e hi) (hslots j e hj)⟩
  rcases hfresh k hk with hk | hnone
  · exact h.agree k hk i e (hslots i e hi) he
  · exact absurd he (hnone i e hi)

/-- The truth changes.  The keys that it changes for are no longer fresh. -/
theorem Coherent.modify (h : Coherent covers truth fresh slots)
    (hfresh : ∀ k, fresh' k → fresh k ∧ truth' k = truth k) :
    Coherent covers truth' fresh' slots :=
  ⟨fun k hk i e hi he => (hfresh k hk).2.trans (h.agree k (hfresh k hk).1 i e hi he), h.distinct⟩

/-! ## Entries without conflicts -/

/-- No two slots hold entries in conflict. -/
def Apart (conflict : ε → ε → Prop) (slots : ι → Option ε) : Prop :=
  ∀ i j e e', slots i = some e → slots j = some e' → conflict e e' → i = j

variable {conflict : ε → ε → Prop}

theorem Apart.empty : Apart conflict fun _ : ι => none := nofun

/-- A slot takes an entry that is in conflict with none of the others. -/
theorem Apart.fill [DecidableEq ι] (h : Apart conflict slots)
    (hsymm : ∀ e e', conflict e e' → conflict e' e) {i : ι} {e : ε}
    (hnew : ∀ j e', j ≠ i → slots j = some e' → ¬conflict e e') :
    Apart conflict (Function.update slots i (some e)) := by
  intro j j' e₁ e₂ hj hj' hcon
  by_cases hji : j = i <;> by_cases hji' : j' = i
  · rw [hji, hji']
  · rw [hji, Function.update_self, Option.some.injEq] at hj
    rw [Function.update_of_ne hji'] at hj'
    exact absurd (hj ▸ hcon) (hnew j' e₂ hji' hj')
  · rw [hji', Function.update_self, Option.some.injEq] at hj'
    rw [Function.update_of_ne hji] at hj
    exact absurd (hsymm _ _ (hj' ▸ hcon)) (hnew j e₁ hji hj)
  · rw [Function.update_of_ne hji] at hj
    rw [Function.update_of_ne hji'] at hj'
    exact h j j' e₁ e₂ hj hj' hcon

theorem Apart.invalidate (h : Apart conflict slots)
    (hslots : ∀ i e, slots' i = some e → slots i = some e) : Apart conflict slots' :=
  fun i j e e' hi hj => h i j e e' (hslots i e hi) (hslots j e' hj)

end Coherence
