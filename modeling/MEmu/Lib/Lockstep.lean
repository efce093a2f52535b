import MEmu.Lib.Run

/-!
# Two runs in lockstep

`Lock s s' x y Q` runs `x` from `s` and `y` from `s'`.  Either both return, and then in
`Q`, or both abort with the same abort.  The two states may be of different types and
the two results too, so one of the runs can be of a simpler machine.  There is one rule
for each way to build a computation, and `Lock.of_sat` takes what is known of each run
by itself.
-/

namespace Run

variable {ε σ τ α α' γ γ' : Type}

/-- Both runs have returned, in `Q`, or both have aborted with the same abort. -/
inductive EndAlike (Q : α → α' → σ → τ → Prop) :
    EStateM.Result ε σ α → EStateM.Result ε τ α' → Prop where
  | ok {a : α} {a' : α'} {t : σ} {t' : τ} (h : Q a a' t t') : EndAlike Q (.ok a t) (.ok a' t')
  | error (e : ε) (t : σ) (t' : τ) : EndAlike Q (.error e t) (.error e t')

/-- From `s` and `s'`, `x` and `y` end alike. -/
def Lock (s : σ) (s' : τ) (x : EStateM ε σ α) (y : EStateM ε τ α')
    (Q : α → α' → σ → τ → Prop) : Prop := EndAlike Q (x.run s) (y.run s')

section Rules

variable {s : σ} {s' : τ} {Q : α → α' → σ → τ → Prop}

/-- What the second run does where the first returns. -/
theorem Lock.ok {x : EStateM ε σ α} {y : EStateM ε τ α'} (h : Lock s s' x y Q) {a : α} {t : σ}
    (hr : x.run s = .ok a t) : ∃ a' t', y.run s' = .ok a' t' ∧ Q a a' t t' := by
  rw [Lock, hr] at h
  generalize y.run s' = r at h ⊢
  cases h with
  | ok h => exact ⟨_, _, rfl, h⟩

/-- The runs, each by what is known of it. -/
theorem Lock.of_sat {x : EStateM ε σ α} {y : EStateM ε τ α'} {P : α → σ → Prop}
    {P' : α' → τ → Prop} {E : ε → σ → Prop} {E' : ε → τ → Prop} (h : Sat s x P E)
    (h' : Sat s' y P' E') (hQ : ∀ a t a' t', P a t → P' a' t' → Q a a' t t')
    (hleft : ∀ a t e t', P a t → ¬E' e t') (hright : ∀ e t a' t', E e t → ¬P' a' t')
    (herr : ∀ e t e' t', E e t → E' e' t' → e = e') : Lock s s' x y Q := by
  unfold Lock
  cases hr : x.run s <;> cases hr' : y.run s'
  · exact .ok (hQ _ _ _ _ (h.ok hr) (h'.ok hr'))
  · exact absurd (h'.error hr') (hleft _ _ _ _ (h.ok hr))
  · exact absurd (h'.ok hr') (hright _ _ _ _ (h.error hr))
  · obtain rfl := herr _ _ _ _ (h.error hr) (h'.error hr')
    exact .error _ _ _

theorem Lock.mono {x : EStateM ε σ α} {y : EStateM ε τ α'} {Q' : α → α' → σ → τ → Prop}
    (h : Lock s s' x y Q) (hQ : ∀ a a' t t', Q a a' t t' → Q' a a' t t') : Lock s s' x y Q' := by
  unfold Lock at h ⊢
  generalize x.run s = r at h ⊢
  generalize y.run s' = r' at h ⊢
  cases h with
  | ok h => exact .ok (hQ _ _ _ _ h)
  | error e t t' => exact .error e t t'

/-- The computations may be replaced by others with the same runs. -/
theorem Lock.congr {x x₁ : EStateM ε σ α} {y y₁ : EStateM ε τ α'} (hx : x.run s = x₁.run s)
    (hy : y.run s' = y₁.run s') (h : Lock s s' x₁ y₁ Q) : Lock s s' x y Q := by
  rw [Lock, hx, hy]
  exact h

/-- Something more is known of each run. -/
theorem Lock.with {x : EStateM ε σ α} {y : EStateM ε τ α'} {P : α → σ → Prop} {P' : α' → τ → Prop}
    {E : ε → σ → Prop} {E' : ε → τ → Prop} (h : Lock s s' x y Q) (hx : Sat s x P E)
    (hy : Sat s' y P' E') : Lock s s' x y fun a a' t t' => Q a a' t t' ∧ P a t ∧ P' a' t' := by
  unfold Lock Sat at *
  generalize x.run s = r at h hx ⊢
  generalize y.run s' = r' at h hy ⊢
  cases h with
  | ok h => exact .ok ⟨h, hx, hy⟩
  | error e t t' => exact .error e t t'

theorem Lock.pure {a : α} {a' : α'} (h : Q a a' s s') :
    Lock s s' (pure a : EStateM ε σ α) (pure a') Q := EndAlike.ok h

theorem Lock.throw (e : ε) : Lock s s' (throw e : EStateM ε σ α) (throw e) Q :=
  EndAlike.error e s s'

theorem Lock.bind {x : EStateM ε σ γ} {y : EStateM ε τ γ'} {f : γ → EStateM ε σ α}
    {g : γ' → EStateM ε τ α'} (h : Lock s s' x y fun c c' t t' => Lock t t' (f c) (g c') Q) :
    Lock s s' (x >>= f) (y >>= g) Q := by
  unfold Lock at h ⊢
  rw [EStateM.run_bind, EStateM.run_bind]
  generalize x.run s = r at h ⊢
  generalize y.run s' = r' at h ⊢
  cases h with
  | ok h => exact h
  | error e t t' => exact .error e t t'

theorem Lock.get {Q : σ → τ → σ → τ → Prop} (h : Q s s' s s') :
    Lock s s' (get : EStateM ε σ σ) (get : EStateM ε τ τ) Q := EndAlike.ok h

/-- The second run changes its state first. -/
theorem Lock.modify_right {x : EStateM ε σ α} {y : PUnit → EStateM ε τ α'} {g : τ → τ}
    (h : Lock s (g s') x (y ⟨⟩) Q) : Lock s s' x (modify g >>= y) Q := h

theorem Lock.modify {f : σ → σ} {g : τ → τ} {Q : PUnit → PUnit → σ → τ → Prop}
    (h : Q ⟨⟩ ⟨⟩ (f s) (g s')) :
    Lock s s' (modify f : EStateM ε σ PUnit) (modify g : EStateM ε τ PUnit) Q :=
  EndAlike.ok h

theorem Lock.ite {c : Prop} [Decidable c] {x₁ x₂ : EStateM ε σ α} {y₁ y₂ : EStateM ε τ α'}
    (ht : c → Lock s s' x₁ y₁ Q) (hf : ¬c → Lock s s' x₂ y₂ Q) :
    Lock s s' (if c then x₁ else x₂) (if c then y₁ else y₂) Q := by
  split
  · exact ht ‹_›
  · exact hf ‹_›

/-- Computations on parts of the states, where `put` and `put'` replace the parts. -/
theorem Lock.part {σ₀ τ₀ : Type} {x : EStateM ε σ₀ α} {y : EStateM ε τ₀ α'} {X : EStateM ε σ α}
    {Y : EStateM ε τ α'} {s₀ : σ₀} {s₀' : τ₀} {put : σ₀ → σ} {put' : τ₀ → τ}
    (hok : ∀ a t, x.run s₀ = .ok a t → X.run s = .ok a (put t))
    (herr : ∀ e t, x.run s₀ = .error e t → X.run s = .error e (put t))
    (hok' : ∀ a t, y.run s₀' = .ok a t → Y.run s' = .ok a (put' t))
    (herr' : ∀ e t, y.run s₀' = .error e t → Y.run s' = .error e (put' t))
    (h : Lock s₀ s₀' x y fun a a' t t' => Q a a' (put t) (put' t')) : Lock s s' X Y Q := by
  unfold Lock at h ⊢
  cases hr : x.run s₀ <;> cases hr' : y.run s₀' <;> rw [hr, hr'] at h
  · rw [hok _ _ hr, hok' _ _ hr']
    cases h with
    | ok h => exact .ok h
  · cases h
  · cases h
  · rw [herr _ _ hr, herr' _ _ hr']
    cases h
    exact .error _ _ _

/-- One computation from one state. -/
theorem Lock.self {x : EStateM ε σ α} {Q : α → α → σ → σ → Prop}
    (h : Sat s x (fun a t => Q a a t t) fun _ _ => True) : Lock s s x x Q := by
  unfold Lock
  unfold Sat at h
  cases hr : x.run s with
  | ok a t =>
      rw [hr] at h
      exact .ok h
  | error e t => exact .error e t t

end Rules

/-! ## Runs of many steps -/

section Many

variable {ι : Type} {s : σ} {s' : τ}

/-- A step of each run for each input, from related states to related ones. -/
theorem Lock.forM {x : ι → EStateM ε σ PUnit} {y : ι → EStateM ε τ PUnit} {R : σ → τ → Prop}
    (is : List ι) (hstep : ∀ i t t', R t t' → Lock t t' (x i) (y i) fun _ _ => R) (h : R s s') :
    Lock s s' (forM is x) (forM is y) fun _ _ => R := by
  induction is generalizing s s' with
  | nil => exact .pure h
  | cons i is ih =>
      rw [List.forM_cons, List.forM_cons]
      exact .bind ((hstep i s s' h).mono fun _ _ t t' ht => ih ht)

end Many

end Run
