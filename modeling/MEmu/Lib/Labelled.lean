import Mathlib.Data.List.Basic
import Mathlib.Data.List.Induction

/-!
# Labelled runs

`Steps step s labels s'` says that steps with these labels lead from `s` to `s'`.  An
invariant has to be kept by the steps of the labels that occur.  A refinement matches
each step by a run of another system, and `project` is the case where the other state
is a part of the first: what happens to the part is a run of its own, by the labels
that concern it.
-/

namespace Labelled

variable {σ τ α γ : Type} {step : σ → α → σ → Prop} {stepOf : τ → γ → τ → Prop}

/-- From `s`, steps with these labels lead to `s'`. -/
inductive Steps (step : σ → α → σ → Prop) : σ → List α → σ → Prop where
  | nil (s : σ) : Steps step s [] s
  | snoc {s s' s'' : σ} {labels : List α} {a : α} (h : Steps step s labels s')
      (ha : step s' a s'') : Steps step s (labels ++ [a]) s''

variable {s s' s'' : σ} {labels labels' : List α}

theorem Steps.one {a : α} (ha : step s a s') : Steps step s [a] s' := .snoc (.nil s) ha

theorem Steps.append (h : Steps step s labels s') (h' : Steps step s' labels' s'') :
    Steps step s (labels ++ labels') s'' := by
  induction h' with
  | nil => rwa [List.append_nil]
  | snoc _ ha ih =>
      rw [← List.append_assoc]
      exact .snoc ih ha

/-- A run goes through the step of each of its labels. -/
theorem Steps.split {a : α} (h : Steps step s (labels ++ a :: labels') s') :
    ∃ t t', Steps step s labels t ∧ step t a t' ∧ Steps step t' labels' s' := by
  induction labels' using List.reverseRecOn generalizing s' with
  | nil =>
      generalize hl : labels ++ [a] = l at h
      cases h with
      | nil => simp at hl
      | snoc h ha =>
          obtain ⟨rfl, heq⟩ := List.append_inj' hl rfl
          cases heq
          exact ⟨_, _, h, ha, .nil _⟩
  | append_singleton labels' b ih =>
      generalize hl : labels ++ a :: (labels' ++ [b]) = l at h
      cases h with
      | nil => simp at hl
      | snoc h hb =>
          rw [← List.cons_append, ← List.append_assoc] at hl
          obtain ⟨rfl, heq⟩ := List.append_inj' hl rfl
          cases heq
          obtain ⟨t, t', h₁, ha, h₂⟩ := ih h
          exact ⟨t, t', h₁, ha, h₂.snoc hb⟩

/-- Where a step has one outcome a run has one. -/
theorem Steps.unique (h : Steps step s labels s') (h' : Steps step s labels s'')
    (hstep : ∀ s a t t', step s a t → step s a t' → t = t') : s' = s'' := by
  induction h generalizing s'' with
  | nil =>
      generalize hl : ([] : List α) = l at h'
      cases h' with
      | nil => rfl
      | snoc => simp at hl
  | @snoc t s' labels a h ha ih =>
      generalize hl : labels ++ [a] = l at h'
      cases h' with
      | nil => simp at hl
      | snoc h' hb =>
          obtain ⟨rfl, heq⟩ := List.append_inj' hl rfl
          cases heq
          cases ih h'
          exact hstep _ _ _ _ ha hb

/-- Every label is that of a step. -/
theorem Steps.mem {a : α} (h : Steps step s labels s') (ha : a ∈ labels) :
    ∃ t t', step t a t' := by
  induction h with
  | nil => cases ha
  | snoc _ hb ih =>
      rcases List.mem_append.mp ha with ha | ha
      · exact ih ha
      · cases List.mem_singleton.mp ha
        exact ⟨_, _, hb⟩

/-- What the steps of the labels that occur keep, the run keeps. -/
theorem Steps.invariant {P : σ → Prop} (h : Steps step s labels s')
    (hstep : ∀ a ∈ labels, ∀ t t', P t → step t a t' → P t') (hs : P s) : P s' := by
  induction h with
  | nil => exact hs
  | @snoc s' s'' labels a _ ha ih =>
      refine hstep a (List.mem_append_right _ List.mem_cons_self) s' s'' (ih fun b hb => ?_) ha
      exact hstep b (List.mem_append_left _ hb)

/-- A run is one of every system that has its steps, under the labels that they have there. -/
theorem Steps.relabel {step' : σ → γ → σ → Prop} {g : α → γ} (h : Steps step s labels s')
    (hstep : ∀ s a s', step s a s' → step' s (g a) s') : Steps step' s (labels.map g) s' := by
  induction h with
  | nil => exact .nil s
  | snoc _ ha ih =>
      rw [List.map_append]
      exact ih.snoc (hstep _ _ _ ha)

/-- Runs refine where steps do: a step is matched by a run with the labels `g` gives it. -/
theorem Steps.refine {R : σ → τ → Prop} {g : α → List γ} {t : τ} (h : Steps step s labels s')
    (hstep : ∀ s a s' t, R s t → step s a s' → ∃ t', Steps stepOf t (g a) t' ∧ R s' t')
    (hs : R s t) : ∃ t', Steps stepOf t (labels.flatMap g) t' ∧ R s' t' := by
  induction h with
  | nil => exact ⟨t, .nil t, hs⟩
  | @snoc s' s'' labels a _ ha ih =>
      obtain ⟨t', hrun, ht'⟩ := ih
      obtain ⟨t'', hrun', ht''⟩ := hstep s' a s'' t' ht' ha
      refine ⟨t'', ?_, ht''⟩
      rw [List.flatMap_append, List.flatMap_singleton]
      exact hrun.append hrun'

/-- A part of the state goes by the labels that concern it, and stays at every other step. -/
theorem Steps.project {P : σ → Prop} {f : σ → τ} {g : α → Option γ}
    (h : Steps step s labels s') (hP : ∀ t a t', P t → step t a t' → P t')
    (hstep : ∀ t a t', P t → step t a t' → (g a = none → f t' = f t) ∧
      ∀ c, g a = some c → stepOf (f t) c (f t')) (hs : P s) :
    Steps stepOf (f s) (labels.filterMap g) (f s') := by
  have hmatch : ∀ t a t' u, (P t ∧ f t = u) → step t a t' →
      ∃ u', Steps stepOf u (g a).toList u' ∧ (P t' ∧ f t' = u') := by
    rintro t a t' _ ⟨ht, rfl⟩ ha
    obtain ⟨hnone, hsome⟩ := hstep t a t' ht ha
    refine ⟨f t', ?_, hP t a t' ht ha, rfl⟩
    cases hg : g a with
    | none =>
        rw [hnone hg]
        exact .nil _
    | some c => exact .one (hsome c hg)
  obtain ⟨u, hrun, -, rfl⟩ := h.refine hmatch ⟨hs, rfl⟩
  rwa [← List.filterMap_eq_flatMap_toList] at hrun

end Labelled
