import Mathlib.Tactic.Common

/-!
# Cells of a state

A state with cells, each read and written by itself.  The four laws are those of a family of
independent lenses.  `update` is a write that depends on what the cell held.
-/

/-- Cells named by `ι`, holding values of `α`, in a state of `σ`. -/
structure Cells (ι α σ : Type*) where
  get : ι → σ → α
  set : ι → α → σ → σ
  get_set : ∀ i a s, get i (set i a s) = a
  get_set_of_ne : ∀ i j a s, j ≠ i → get j (set i a s) = get j s
  set_get : ∀ i s, set i (get i s) s = s
  set_set : ∀ i a b s, set i b (set i a s) = set i b s

namespace Cells

variable {ι α σ : Type*} (C : Cells ι α σ) (i j : ι) (f g : α → α) (s : σ)

/-- The cell after `f`. -/
def update : σ := C.set i (f (C.get i s)) s

@[simp] theorem get_update : C.get i (C.update i f s) = f (C.get i s) := C.get_set _ _ _

theorem get_update_of_ne (h : j ≠ i) : C.get j (C.update i f s) = C.get j s :=
  C.get_set_of_ne _ _ _ _ h

theorem update_eq_self {i : ι} {f : α → α} {s : σ} (h : f (C.get i s) = C.get i s) :
    C.update i f s = s := by
  rw [update, h, C.set_get]

/-- An update that does nothing to what `f` leaves does nothing after `f`. -/
theorem update_update_of_fixed {g : α → α} (h : g (f (C.get i s)) = f (C.get i s)) :
    C.update i g (C.update i f s) = C.update i f s :=
  C.update_eq_self (by rw [get_update, h])

end Cells
