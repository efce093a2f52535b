import Mathlib.Order.Defs.Unbundled
import Mathlib.Tactic.Common

/-!
# Runs that can abort

Rules for `EStateM`, where an abort keeps the state it was reached in.
`Sat s x Q E` says that from `s` the computation `x` returns in `Q` or aborts in
`E`, with one rule for each way to build a computation.  `Keeps R x` says that `R`
relates the first state of a run to its last, however it ends; for a preorder
`R` that composes.
-/

namespace Run

variable {ε σ α γ : Type}

/-- The state in which a run ends. -/
def final : EStateM.Result ε σ α → σ
  | .ok _ s => s
  | .error _ s => s

/-- What a run returns or aborts with. -/
def result : EStateM.Result ε σ α → Except ε α
  | .ok a _ => .ok a
  | .error e _ => .error e

/-! ## Postconditions -/

/-- From `s`, `x` returns in `Q` or aborts in `E`. -/
def Sat (s : σ) (x : EStateM ε σ α) (Q : α → σ → Prop) (E : ε → σ → Prop) : Prop :=
  match x.run s with
  | .ok a s' => Q a s'
  | .error e s' => E e s'

section Rules

variable {s : σ} {Q : α → σ → Prop} {E : ε → σ → Prop}

/-- What holds of a run that returns. -/
theorem Sat.ok {x : EStateM ε σ α} {a : α} {s' : σ} (h : Sat s x Q E) (hr : x.run s = .ok a s') :
    Q a s' := by
  rw [Sat, hr] at h
  exact h

/-- What holds of a run that aborts. -/
theorem Sat.error {x : EStateM ε σ α} {e : ε} {s' : σ} (h : Sat s x Q E)
    (hr : x.run s = .error e s') : E e s' := by
  rw [Sat, hr] at h
  exact h

/-- A triple, from both outcomes of the run. -/
theorem Sat.intro {x : EStateM ε σ α} (hok : ∀ a s', x.run s = .ok a s' → Q a s')
    (herr : ∀ e s', x.run s = .error e s' → E e s') : Sat s x Q E := by
  unfold Sat
  split
  · exact hok _ _ ‹_›
  · exact herr _ _ ‹_›

/-- A run is known by its result where the postconditions pin it down. -/
theorem Sat.result {x : EStateM ε σ α} {r : Except ε α}
    (h : Sat s x (fun a _ => r = .ok a) (fun e _ => r = .error e)) : result (x.run s) = r := by
  unfold Sat at h
  cases hr : x.run s <;> rw [hr] at h <;> exact h.symm

/-- A computation that aborts nowhere returns. -/
theorem Sat.exists_ok {x : EStateM ε σ α} (h : Sat s x Q (fun _ _ => False)) :
    ∃ a s', x.run s = .ok a s' ∧ Q a s' := by
  cases hr : x.run s with
  | ok a s' => exact ⟨a, s', rfl, h.ok hr⟩
  | error e s' => exact (h.error hr).elim

/-- A computation that returns nowhere aborts. -/
theorem Sat.exists_error {x : EStateM ε σ α} (h : Sat s x (fun _ _ => False) E) :
    ∃ e s', x.run s = .error e s' ∧ E e s' := by
  cases hr : x.run s with
  | ok a s' => exact (h.ok hr).elim
  | error e s' => exact ⟨e, s', rfl, h.error hr⟩

/-- The rule of consequence. -/
theorem Sat.mono {x : EStateM ε σ α} {Q' : α → σ → Prop} {E' : ε → σ → Prop}
    (h : Sat s x Q E) (hQ : ∀ a s', Q a s' → Q' a s') (hE : ∀ e s', E e s' → E' e s') :
    Sat s x Q' E' :=
  .intro (fun _ _ hr => hQ _ _ (h.ok hr)) (fun _ _ hr => hE _ _ (h.error hr))

/-- Two triples of one run. -/
theorem Sat.and {x : EStateM ε σ α} {Q' : α → σ → Prop} {E' : ε → σ → Prop} (h : Sat s x Q E)
    (h' : Sat s x Q' E') : Sat s x (fun a s' => Q a s' ∧ Q' a s') (fun e s' => E e s' ∧ E' e s') :=
  .intro (fun _ _ hr => ⟨h.ok hr, h'.ok hr⟩) fun _ _ hr => ⟨h.error hr, h'.error hr⟩

theorem Sat.trivial {x : EStateM ε σ α} : Sat s x (fun _ _ => True) (fun _ _ => True) :=
  .intro (fun _ _ _ => True.intro) fun _ _ _ => True.intro

theorem Sat.pure {a : α} (h : Q a s) : Sat s (pure a : EStateM ε σ α) Q E := h

theorem Sat.throw {e : ε} (h : E e s) : Sat s (throw e : EStateM ε σ α) Q E := h

/-- The rule of sequence. -/
theorem Sat.bind {x : EStateM ε σ γ} {f : γ → EStateM ε σ α}
    (h : Sat s x (fun a s' => Sat s' (f a) Q E) E) : Sat s (x >>= f) Q E := by
  unfold Sat at h ⊢
  rw [EStateM.run_bind]
  cases hx : x.run s with
  | ok a s' =>
      rw [hx] at h
      exact h
  | error e s' =>
      rw [hx] at h
      exact h

/-- What follows a computation that returns nowhere is not reached. -/
theorem Sat.bind_left {x : EStateM ε σ γ} {f : γ → EStateM ε σ α}
    (h : Sat s x (fun _ _ => False) E) : Sat s (x >>= f) Q E :=
  .bind (h.mono (fun _ _ => False.elim) fun _ _ h => h)

/-- Where the aborts do not matter, a continuation is to be right after what is known to return. -/
theorem Sat.bind_of {x : EStateM ε σ γ} {f : γ → EStateM ε σ α} {P : γ → σ → Prop}
    {E' : ε → σ → Prop} (hx : Sat s x P E') (h : ∀ a s', P a s' → Sat s' (f a) Q fun _ _ => True) :
    Sat s (x >>= f) Q fun _ _ => True :=
  .bind (hx.mono h fun _ _ _ => True.intro)

/-- The rule of sequence where an abort may leave anything. -/
theorem Sat.bind_any {x : EStateM ε σ γ} {f : γ → EStateM ε σ α}
    (h : ∀ a s', Sat s' (f a) Q fun _ _ => True) : Sat s (x >>= f) Q fun _ _ => True :=
  Sat.trivial.bind_of fun a s' _ => h a s'

theorem Sat.get {Q : σ → σ → Prop} (h : Q s s) : Sat s (get : EStateM ε σ σ) Q E := h

theorem Sat.set {s' : σ} {Q : PUnit → σ → Prop} (h : Q ⟨⟩ s') :
    Sat s (set s' : EStateM ε σ PUnit) Q E := h

/-- The rule of assignment. -/
theorem Sat.modify {f : σ → σ} {Q : PUnit → σ → Prop} (h : Q ⟨⟩ (f s)) :
    Sat s (modify f : EStateM ε σ PUnit) Q E := h

theorem Sat.modifyGet {f : σ → α × σ} (h : Q (f s).1 (f s).2) :
    Sat s (modifyGet f : EStateM ε σ α) Q E := h

/-- The rule of the conditional. -/
theorem Sat.ite {c : Prop} [Decidable c] {x y : EStateM ε σ α} (ht : c → Sat s x Q E)
    (hf : ¬c → Sat s y Q E) : Sat s (if c then x else y) Q E := by
  split
  · exact ht ‹_›
  · exact hf ‹_›

/-- A computation on a part of the state, where `put` is the state with the part replaced. -/
theorem Sat.part {τ : Type} {x : EStateM ε τ α} {y : EStateM ε σ α} {t : τ} {put : τ → σ}
    (hok : ∀ a t', x.run t = .ok a t' → y.run s = .ok a (put t'))
    (herr : ∀ e t', x.run t = .error e t' → y.run s = .error e (put t'))
    (h : Sat t x (fun a t' => Q a (put t')) fun e t' => E e (put t')) : Sat s y Q E := by
  unfold Sat at h ⊢
  cases hx : x.run t with
  | ok a t' =>
      rw [hx] at h
      rw [hok a t' hx]
      exact h
  | error e t' =>
      rw [hx] at h
      rw [herr e t' hx]
      exact h

theorem sat_pure {a : α} : Sat s (pure a : EStateM ε σ α) Q E ↔ Q a s := Iff.rfl

theorem sat_get {Q : σ → σ → Prop} : Sat s (get : EStateM ε σ σ) Q E ↔ Q s s := Iff.rfl

theorem sat_set {s' : σ} {Q : PUnit → σ → Prop} :
    Sat s (set s' : EStateM ε σ PUnit) Q E ↔ Q ⟨⟩ s' := Iff.rfl

/-- The rule of sequence, both ways. -/
theorem sat_bind {x : EStateM ε σ γ} {f : γ → EStateM ε σ α} :
    Sat s (x >>= f) Q E ↔ Sat s x (fun a s' => Sat s' (f a) Q E) E := by
  constructor
  · intro h
    refine .intro (fun a s' hr => ?_) fun e s' hr => ?_
    · rw [Sat, EStateM.run_bind, hr] at h
      exact h
    · rw [Sat, EStateM.run_bind, hr] at h
      exact h
  · exact .bind

/-- Two continuations are the same after `x` where they agree on what `x` returns. -/
theorem bind_congr_of {x : EStateM ε σ γ} {f g : γ → EStateM ε σ α} {P : γ → Prop}
    (hx : ∀ s, Sat s x (fun a _ => P a) (fun _ _ => True)) (h : ∀ a, P a → f a = g a) :
    (x >>= f) = x >>= g := by
  funext s
  show (x >>= f).run s = (x >>= g).run s
  rw [EStateM.run_bind, EStateM.run_bind]
  cases hr : x.run s with
  | ok a s' => simp only [h a ((hx s).ok hr)]
  | error e s' => rfl

end Rules

/-! ## Relations that every run keeps -/

/-- `R` relates the first state of every run of `x` to its last. -/
def Keeps (R : σ → σ → Prop) (x : EStateM ε σ α) : Prop :=
  ∀ s, Sat s x (fun _ => R s) (fun _ => R s)

section Keeps

variable {R : σ → σ → Prop}

theorem Keeps.pure [Std.Refl R] (a : α) : Keeps R (pure a : EStateM ε σ α) :=
  fun s => refl_of R s

theorem Keeps.throw [Std.Refl R] (e : ε) : Keeps R (throw e : EStateM ε σ α) :=
  fun s => refl_of R s

theorem Keeps.get [Std.Refl R] : Keeps R (get : EStateM ε σ σ) := fun s => refl_of R s

/-- A transitive relation is kept by a sequence. -/
theorem Keeps.bind [IsTrans σ R] {x : EStateM ε σ γ} {f : γ → EStateM ε σ α} (hx : Keeps R x)
    (hf : ∀ a, Keeps R (f a)) : Keeps R (x >>= f) := by
  intro s
  refine .bind ((hx s).mono (fun a s' h => ?_) fun _ _ h => h)
  exact (hf a s').mono (fun _ _ h' => trans_of R h h') fun _ _ h' => trans_of R h h'

/-- A relation is kept by a conditional. -/
theorem Keeps.ite {c : Prop} [Decidable c] {x y : EStateM ε σ α} (hx : Keeps R x)
    (hy : Keeps R y) : Keeps R (if c then x else y) :=
  fun s => .ite (fun _ => hx s) fun _ => hy s

/-- What holds after either outcome holds of the state at the end. -/
theorem Sat.final {x : EStateM ε σ α} {s : σ} {P : σ → Prop}
    (h : Sat s x (fun _ => P) (fun _ => P)) : P (final (x.run s)) := by
  unfold Sat at h
  cases hr : x.run s <;> rw [hr] at h <;> exact h

end Keeps

/-! ## What holds as long as a run returns -/

/-- If `x` is run from a state in `P` and returns, it does so in `P`. -/
def Preserves (P : σ → Prop) (x : EStateM ε σ α) : Prop :=
  ∀ s, P s → Sat s x (fun _ => P) (fun _ _ => True)

section Preserves

variable {P : σ → Prop}

theorem Preserves.pure (a : α) : Preserves P (pure a : EStateM ε σ α) := fun _ h => h

theorem Preserves.throw (e : ε) : Preserves P (throw e : EStateM ε σ α) := fun _ _ => True.intro

theorem Preserves.get : Preserves P (get : EStateM ε σ σ) := fun _ h => h

/-- An invariant is preserved by a sequence. -/
theorem Preserves.bind {x : EStateM ε σ γ} {f : γ → EStateM ε σ α} (hx : Preserves P x)
    (hf : ∀ a, Preserves P (f a)) : Preserves P (x >>= f) :=
  fun s h => .bind ((hx s h).mono (fun a s' h' => hf a s' h') fun _ _ h' => h')

/-- An invariant is preserved by a conditional. -/
theorem Preserves.ite {c : Prop} [Decidable c] {x y : EStateM ε σ α} (hx : Preserves P x)
    (hy : Preserves P y) : Preserves P (if c then x else y) :=
  fun s h => .ite (fun _ => hx s h) fun _ => hy s h

/-- An invariant is a relation from one state to the next. -/
theorem Keeps.preserves {x : EStateM ε σ α} (h : Keeps (fun s s' => P s → P s') x) :
    Preserves P x :=
  fun s hs => (h s).mono (fun _ _ h' => h' hs) fun _ _ _ => True.intro

end Preserves

/-! ## The aborts of a run -/

/-- Every abort of `x` is in `P`. -/
def AbortsIn (P : ε → Prop) (x : EStateM ε σ α) : Prop :=
  ∀ s, Sat s x (fun _ _ => True) (fun e _ => P e)

section Aborts

variable {P : ε → Prop}

theorem AbortsIn.pure (a : α) : AbortsIn P (pure a : EStateM ε σ α) := fun _ => True.intro

theorem AbortsIn.throw {e : ε} (h : P e) : AbortsIn P (throw e : EStateM ε σ α) := fun _ => h

theorem AbortsIn.get : AbortsIn P (get : EStateM ε σ σ) := fun _ => True.intro

theorem AbortsIn.set (s : σ) : AbortsIn P (set s : EStateM ε σ PUnit) := fun _ => True.intro

theorem AbortsIn.modifyGet (f : σ → α × σ) : AbortsIn P (modifyGet f : EStateM ε σ α) :=
  fun _ => True.intro

/-- A sequence aborts where its parts do. -/
theorem AbortsIn.bind {x : EStateM ε σ γ} {f : γ → EStateM ε σ α} (hx : AbortsIn P x)
    (hf : ∀ a, AbortsIn P (f a)) : AbortsIn P (x >>= f) :=
  fun s => .bind ((hx s).mono (fun a s' _ => hf a s') fun _ _ h => h)

/-- A conditional aborts where its branches do. -/
theorem AbortsIn.ite {c : Prop} [Decidable c] {x y : EStateM ε σ α} (hx : AbortsIn P x)
    (hy : AbortsIn P y) : AbortsIn P (if c then x else y) :=
  fun s => .ite (fun _ => hx s) fun _ => hy s

/-- Every abort of `x` from `s` is in `P`. -/
def AbortsFrom (P : ε → Prop) (s : σ) (x : EStateM ε σ α) : Prop :=
  ∀ e s', x.run s = .error e s' → P e

/-- The aborts of a run, from a triple. -/
theorem AbortsFrom.of_sat {s : σ} {x : EStateM ε σ α} {Q : α → σ → Prop}
    (h : Sat s x Q (fun e _ => P e)) : AbortsFrom P s x := fun _ _ hr => h.error hr

/-- What aborts before a continuation aborts with it. -/
theorem AbortsFrom.left {s : σ} {x : EStateM ε σ γ} {f : γ → EStateM ε σ α}
    (h : AbortsFrom P s (x >>= f)) : AbortsFrom P s x := by
  intro e s' hr
  refine h e s' ?_
  rw [EStateM.run_bind, hr]

/-- The rest of a sequence has the aborts of the whole. -/
theorem AbortsFrom.right {s s' : σ} {x : EStateM ε σ γ} {f : γ → EStateM ε σ α} {a : γ}
    (h : AbortsFrom P s (x >>= f)) (hr : x.run s = .ok a s') : AbortsFrom P s' (f a) := by
  intro e s'' hf
  refine h e s'' ?_
  rw [EStateM.run_bind, hr]
  exact hf

end Aborts

/-! ## Two runs -/

/-- Two runs that return or abort with the same, in states that `R` relates. -/
structure Alike (R : σ → σ → Prop) (r r' : EStateM.Result ε σ α) : Prop where
  result : result r = result r'
  final : R (final r) (final r')

/-- From related states, `x` and `y` end alike. -/
def Sync (R : σ → σ → Prop) (x y : EStateM ε σ α) : Prop :=
  ∀ s s', R s s' → Alike R (x.run s) (y.run s')

section Sync

variable {R : σ → σ → Prop}

theorem Alike.symm [Std.Symm R] {r r' : EStateM.Result ε σ α} (h : Alike R r r') :
    Alike R r' r :=
  ⟨h.result.symm, symm_of R h.final⟩

theorem Sync.pure (a : α) : Sync R (pure a : EStateM ε σ α) (pure a) := fun _ _ h => ⟨rfl, h⟩

theorem Sync.throw (e : ε) : Sync R (throw e : EStateM ε σ α) (throw e) := fun _ _ h => ⟨rfl, h⟩

/-- Sequences go together where their parts do. -/
theorem Sync.bind {x y : EStateM ε σ γ} {f g : γ → EStateM ε σ α} (hx : Sync R x y)
    (hf : ∀ a, Sync R (f a) (g a)) : Sync R (x >>= f) (y >>= g) := by
  intro s s' h
  obtain ⟨hresult, hfinal⟩ := hx s s' h
  rw [EStateM.run_bind, EStateM.run_bind]
  cases hr : x.run s <;> cases hr' : y.run s' <;> rw [hr, hr'] at hresult hfinal <;> cases hresult
  · exact hf _ _ _ hfinal
  · exact ⟨rfl, hfinal⟩

/-- Conditionals on one test go together. -/
theorem Sync.ite {c : Prop} [Decidable c] {x x' y y' : EStateM ε σ α} (ht : Sync R x x')
    (hf : Sync R y y') : Sync R (if c then x else y) (if c then x' else y') := by
  split
  · exact ht
  · exact hf

end Sync

end Run
