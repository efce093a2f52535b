import Mathlib.Data.List.Induction

/-!
# Traces

Properties of a finite trace that speak of what came before.  `Each Φ l` holds
where every entry of `l` is as `Φ` says after the entries before it, and
`Since P Q l` where some entry is in `P` and none after it is in `Q`.  Each has one
rule for a trace that grows by an entry at its end, which is how runs are proved.
-/

namespace Trace

variable {α : Type} {P Q : α → Prop} {Φ Ψ : List α → α → Prop} {l : List α} {x : α}

/-- Where a trace that grew by `x` can be cut. -/
theorem snoc_cut {pre post : List α} {y : α} (h : l ++ [x] = pre ++ y :: post) :
    (post = [] ∧ pre = l ∧ y = x) ∨ ∃ post', post = post' ++ [x] ∧ l = pre ++ y :: post' := by
  rcases List.eq_nil_or_concat post with rfl | ⟨post', z, rfl⟩
  · obtain ⟨hl, hx⟩ := List.append_inj' h rfl
    exact .inl ⟨rfl, hl.symm, (List.cons.inj hx).1.symm⟩
  · have h' : l ++ [x] = (pre ++ y :: post') ++ [z] := by
      rw [h, List.concat_eq_append, List.append_assoc, List.cons_append]
    obtain ⟨hl, hx⟩ := List.append_inj' h' rfl
    rw [List.concat_eq_append, ← (List.cons.inj hx).1]
    exact .inr ⟨post', rfl, hl⟩

/-- Where a trace that is put together from parts can be cut. -/
theorem flatMap_cut {β : Type} {f : β → List α} {k : List β} {pre post : List α}
    (h : k.flatMap f = pre ++ x :: post) : ∃ k₁ y k₂ pre' post', k = k₁ ++ y :: k₂ ∧
      f y = pre' ++ x :: post' ∧ pre = k₁.flatMap f ++ pre' := by
  induction k generalizing pre with
  | nil => simp at h
  | cons y k ih =>
      rw [List.flatMap_cons, List.append_eq_append_iff] at h
      rcases h with ⟨rest, rfl, hk⟩ | ⟨rest, hy, hx⟩
      · obtain ⟨k₁, z, k₂, pre', post', rfl, hz, rfl⟩ := ih hk
        exact ⟨y :: k₁, z, k₂, pre', post', rfl, hz, by simp⟩
      · cases rest with
        | nil =>
            have hk : k.flatMap f = [] ++ x :: post := hx.symm
            obtain ⟨k₁, z, k₂, pre', post', rfl, hz, hpre⟩ := ih hk
            refine ⟨y :: k₁, z, k₂, pre', post', rfl, hz, ?_⟩
            rw [List.flatMap_cons, hy, List.append_assoc, ← hpre, List.append_nil, List.append_nil]
        | cons z rest =>
            obtain ⟨rfl, -⟩ := List.cons.inj hx
            exact ⟨[], y, k, pre, rest, rfl, hy, rfl⟩

/-- What is cut in its first part is not cut in a later one. -/
theorem eq_nil_of_cut {β : Type} {f : β → List α} {c k k' : List β} {y y' : β}
    {pre pre' post : List α} {x : α} (hk : y :: k = c ++ y' :: k') (hy : f y = pre ++ x :: post)
    (hpre : pre = c.flatMap f ++ pre') : c = [] := by
  cases c with
  | nil => rfl
  | cons z c =>
      cases hk
      have hlen := congrArg List.length hpre
      simp [hy] at hlen

/-- A cut of the whole is in one part, and at one place in it. -/
theorem flatMap_cut_unique {β : Type} {f : β → List α} {k₁ k₁' k₂ k₂' : List β} {y y' : β}
    {pre pre' post post' : List α} {x x' : α} (hk : k₁ ++ y :: k₂ = k₁' ++ y' :: k₂')
    (hy : f y = pre ++ x :: post) (hy' : f y' = pre' ++ x' :: post')
    (hpre : k₁.flatMap f ++ pre = k₁'.flatMap f ++ pre') : k₁ = k₁' ∧ y = y' ∧ pre = pre' := by
  rcases List.append_eq_append_iff.mp hk with ⟨c, rfl, hc⟩ | ⟨c, rfl, hc⟩
  · rw [List.flatMap_append, List.append_assoc] at hpre
    have hcut := List.append_cancel_left hpre
    obtain rfl := eq_nil_of_cut hc hy hcut
    cases hc
    exact ⟨(List.append_nil _).symm, rfl, hcut⟩
  · rw [List.flatMap_append, List.append_assoc] at hpre
    have hcut := (List.append_cancel_left hpre).symm
    obtain rfl := eq_nil_of_cut hc hy' hcut
    cases hc
    exact ⟨List.append_nil _, rfl, hcut.symm⟩

/-- A list is one way a part without marks and one of marks only. -/
theorem eq_of_append_marked {l l' r r' : List α} (h : l ++ r = l' ++ r') (hl : ∀ x ∈ l, ¬P x)
    (hl' : ∀ x ∈ l', ¬P x) (hr : ∀ x ∈ r, P x) (hr' : ∀ x ∈ r', P x) : l = l' := by
  rcases List.append_eq_append_iff.mp h with ⟨c, rfl, rfl⟩ | ⟨c, rfl, rfl⟩
  · have hc : c = [] := List.eq_nil_iff_forall_not_mem.mpr fun x hx =>
      hl' x (List.mem_append_right _ hx) (hr x (List.mem_append_left _ hx))
    rw [hc, List.append_nil]
  · have hc : c = [] := List.eq_nil_iff_forall_not_mem.mpr fun x hx =>
      hl x (List.mem_append_right _ hx) (hr' x (List.mem_append_left _ hx))
    rw [hc, List.append_nil]

/-- The entries of a trace, each with those before it. -/
def cuts : List α → List (List α × α)
  | [] => []
  | x :: l => ([], x) :: (cuts l).map fun c => (x :: c.1, c.2)

/-- One more element is one more cut, after all the others. -/
theorem cuts_snoc (l : List α) (x : α) : cuts (l ++ [x]) = cuts l ++ [(l, x)] := by
  induction l with
  | nil => rfl
  | cons y l ih => rw [List.cons_append, cuts, ih, List.map_append, cuts, List.cons_append]; rfl

/-! ## What holds at each entry -/

/-- Every entry is as `Φ` says, after the entries before it. -/
def Each (Φ : List α → α → Prop) (l : List α) : Prop :=
  ∀ pre x post, l = pre ++ x :: post → Φ pre x

theorem each_nil : Each Φ [] := fun _ _ _ h => absurd h (by simp)

theorem Each.snoc (h : Each Φ l) (hx : Φ l x) : Each Φ (l ++ [x]) := by
  intro pre y post hcut
  rcases snoc_cut hcut with ⟨-, rfl, rfl⟩ | ⟨post', -, hl⟩
  · exact hx
  · exact h pre y post' hl

theorem each_snoc : Each Φ (l ++ [x]) ↔ Each Φ l ∧ Φ l x := by
  refine ⟨fun h => ⟨fun pre y post hcut => ?_, h l x [] rfl⟩, fun h => h.1.snoc h.2⟩
  exact h pre y (post ++ [x]) (by rw [hcut, List.append_assoc, List.cons_append])

/-- What holds at each entry that a trace is cut down to. -/
theorem Each.of_filterMap {β : Type} {g : α → Option β} {Φ : List β → β → Prop}
    (h : Each Φ (l.filterMap g)) :
    Each (fun pre x => ∀ y, g x = some y → Φ (pre.filterMap g) y) l := by
  rintro pre x post rfl y hy
  refine h (pre.filterMap g) y (post.filterMap g) ?_
  rw [List.filterMap_append, List.filterMap_cons_some hy]

/-! ## What has happened since -/

/-- Some entry is in `P`, and none after it is in `Q`. -/
def Since (P Q : α → Prop) (l : List α) : Prop :=
  ∃ pre x post, l = pre ++ x :: post ∧ P x ∧ ∀ y ∈ post, ¬Q y

theorem not_since_nil : ¬Since P Q [] := fun ⟨_, _, _, h, _⟩ => absurd h (by simp)

theorem since_snoc : Since P Q (l ++ [x]) ↔ P x ∨ Since P Q l ∧ ¬Q x := by
  constructor
  · rintro ⟨pre, y, post, hcut, hP, hQ⟩
    rcases snoc_cut hcut with ⟨-, -, rfl⟩ | ⟨post', rfl, hl⟩
    · exact .inl hP
    · refine .inr ⟨⟨pre, y, post', hl, hP, fun z hz => hQ z (List.mem_append_left _ hz)⟩, ?_⟩
      exact hQ x (List.mem_append_right _ List.mem_cons_self)
  · rintro (hP | ⟨⟨pre, y, post, rfl, hP, hQ⟩, hx⟩)
    · exact ⟨l, x, [], rfl, hP, by simp⟩
    · refine ⟨pre, y, post ++ [x], by simp, hP, fun z hz => ?_⟩
      rcases List.mem_append.mp hz with hz | hz
      · exact hQ z hz
      · rwa [List.mem_singleton.mp hz]

theorem Since.mono {P' : α → Prop} (h : Since P Q l) (hP : ∀ x, P x → P' x) : Since P' Q l := by
  obtain ⟨pre, x, post, hcut, hx, hQ⟩ := h
  exact ⟨pre, x, post, hcut, hP x hx, hQ⟩

/-- Of two kinds of entry, one came last. -/
theorem Since.not_since (h : Since P Q l) (hPQ : ∀ x, P x → ¬Q x) : ¬Since Q P l := by
  induction l using List.reverseRecOn with
  | nil => exact not_since_nil
  | append_singleton l x ih =>
      rw [since_snoc] at h ⊢
      rintro (hQ | ⟨hs, hP⟩)
      · rcases h with hP | ⟨-, hnQ⟩
        · exact hPQ x hP hQ
        · exact hnQ hQ
      · exact ih (h.resolve_left hP).1 hs

/-! ## What follows an entry -/

section Answered

variable {m : α → Bool} {A : α → List α → Prop} {l' : List α}

/-- Between a marked entry and the next one is what `A` says of it. -/
def Answered (m : α → Bool) (A : α → List α → Prop) (l : List α) : Prop :=
  ∀ pre x post, l = pre ++ x :: post → m x = true → A x (post.takeWhile fun y => !m y)

theorem answered_nil : Answered m A [] := fun _ _ _ h => absurd h (by simp)

theorem answered_cons : Answered m A (x :: l) ↔
    (m x = true → A x (l.takeWhile fun y => !m y)) ∧ Answered m A l := by
  constructor
  · intro h
    exact ⟨h [] x l rfl, fun pre y post hcut => h (x :: pre) y post (by rw [hcut, List.cons_append])⟩
  · rintro ⟨hx, hl⟩ pre y post hcut hy
    cases pre with
    | nil =>
        obtain ⟨rfl, rfl⟩ := List.cons.inj hcut
        exact hx hy
    | cons z pre =>
        obtain ⟨-, rfl⟩ := List.cons.inj hcut
        exact hl pre y post rfl hy

theorem takeWhile_append_marked (h : ∀ y ∈ l'.head?, m y = true) (l : List α) :
    ((l ++ l').takeWhile fun y => !m y) = l.takeWhile fun y => !m y := by
  induction l with
  | nil =>
      cases l' with
      | nil => rfl
      | cons y l' => rw [List.nil_append, List.takeWhile_cons_of_neg (by simp [h y rfl]), List.takeWhile_nil]
  | cons z l ih =>
      rw [List.cons_append, List.takeWhile_cons, List.takeWhile_cons, ih]

/-- Two traces can be put together where the second begins with a marked entry. -/
theorem answered_append (h : ∀ y ∈ l'.head?, m y = true) :
    Answered m A (l ++ l') ↔ Answered m A l ∧ Answered m A l' := by
  induction l with
  | nil => exact ⟨fun hl => ⟨answered_nil, hl⟩, And.right⟩
  | cons x l ih =>
      rw [List.cons_append, answered_cons, answered_cons, takeWhile_append_marked h, ih, and_assoc]

theorem answered_of_unmarked (h : ∀ x ∈ l, m x = false) : Answered m A l := by
  rintro pre x post rfl hx
  rw [h x (by simp)] at hx
  cases hx

end Answered

end Trace
