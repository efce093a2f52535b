import Mathlib.Data.List.TakeWhile
import Mathlib.Tactic.Common

/-!
# Regular expressions that are tried in order

Matching as a backtracking matcher does it: the left of two alternatives first, and as many turns
of a star as there can be.  `run r w k` looks for a match of `r` at the start of `w` after which
`k` accepts what is left.  A whole match is one that leaves nothing, and a search takes the first
match at the first place that has one.  Groups are not kept, only the text of a match.

`rests r w` are the texts that a match can leave, in the order in which they are tried.  It says
what `run` means, and is what the theorems are about.
-/

namespace Regex

variable {α : Type}

/-- A regular expression over characters of type `α`. -/
inductive Expr (α : Type) where
  /-- The empty text. -/
  | eps
  /-- One character that meets a test. -/
  | char (p : α → Bool)
  | seq (r s : Expr α)
  | alt (r s : Expr α)
  /-- As many turns as possible. -/
  | star (r : Expr α)
  /-- A lookahead. -/
  | ahead (r : Expr α)

namespace Expr

/-- One turn or more. -/
def plus (r : Expr α) : Expr α := .seq r (.star r)

/-- A turn, or none. -/
def opt (r : Expr α) : Expr α := .alt r .eps

/-- One expression after the other. -/
def seqs : List (Expr α) → Expr α
  | [] => .eps
  | r :: rs => .seq r (seqs rs)

/-- One given character. -/
def lit [BEq α] (c : α) : Expr α := .char (· == c)

end Expr

open Regex.Expr

/-! ## The matcher -/

/-- Up to `n` turns of a matcher.  A turn over the empty text does not count. -/
def runTurns (m : List α → (List α → Option (List α)) → Option (List α)) :
    Nat → List α → (List α → Option (List α)) → Option (List α)
  | 0, w, k => k w
  | n + 1, w, k =>
      match m w fun v => if v.length < w.length then runTurns m n v k else none with
      | some rest => some rest
      | none => k w

/-- The first match at the start after which `k` accepts what is left. -/
def run : Expr α → List α → (List α → Option (List α)) → Option (List α)
  | .eps, w, k => k w
  | .char _, [], _ => none
  | .char p, c :: w, k => if p c then k w else none
  | .seq r s, w, k => run r w fun v => run s v k
  | .alt r s, w, k =>
      match run r w k with
      | some rest => some rest
      | none => run s w k
  -- a turn takes a character at least
  | .star r, w, k => runTurns (run r) w.length w k
  | .ahead r, w, k =>
      match run r w some with
      | some _ => k w
      | none => none

/-- The expression matches the whole text. -/
def matchesWhole (r : Expr α) (w : List α) : Bool :=
  (run r w fun rest => if rest.isEmpty then some rest else none).isSome

/-- The text in front of `rest`. -/
def before (w rest : List α) : List α := w.take (w.length - rest.length)

/-- The first match, and what it leaves. -/
def search (r : Expr α) : List α → Option (List α × List α)
  | [] => (run r [] some).map fun rest => ([], rest)
  | c :: w =>
      match run r (c :: w) some with
      | some rest => some (before (c :: w) rest, rest)
      | none => search r w

/-- The matches one after the other, for an expression that does not match the empty text, where
the text has up to `n` characters. -/
def findUpTo (r : Expr α) : Nat → List α → List (List α)
  | 0, _ => []
  | n + 1, w =>
      match search r w with
      | none => []
      | some (found, rest) => found :: findUpTo r n rest

def findAll (r : Expr α) (w : List α) : List (List α) := findUpTo r w.length w

/-! ## What the matcher tries -/

/-- What up to `n` turns of a matcher can leave. -/
def turns (m : List α → List (List α)) : Nat → List α → List (List α)
  | 0, w => [w]
  | n + 1, w => ((m w).filter fun v => v.length < w.length).flatMap (turns m n) ++ [w]

/-- What a match at the start can leave, in the order it is tried. -/
def rests : Expr α → List α → List (List α)
  | .eps, w => [w]
  | .char _, [] => []
  | .char p, c :: w => if p c then [w] else []
  | .seq r s, w => (rests r w).flatMap (rests s)
  | .alt r s, w => rests r w ++ rests s w
  | .star r, w => turns (rests r) w.length w
  | .ahead r, w => if (rests r w).isEmpty then [] else [w]

section Tries

variable {r : Expr α} {w : List α} {k : List α → Option (List α)}

theorem findSome?_flatMap_filter (q : List α → Bool) (f : List α → List (List α))
    (l : List (List α)) : ((l.filter q).flatMap f).findSome? k
      = l.findSome? fun v => if q v then (f v).findSome? k else none := by
  induction l with
  | nil => rfl
  | cons v l ih =>
      by_cases hv : q v = true
      · rw [List.filter_cons_of_pos hv, List.flatMap_cons, List.findSome?_append, ih,
          List.findSome?_cons, if_pos hv]
        cases (f v).findSome? k <;> rfl
      · rw [List.filter_cons_of_neg hv, ih, List.findSome?_cons, if_neg hv]

theorem findSome?_flatMap (f : List α → List (List α)) (l : List (List α)) :
    (l.flatMap f).findSome? k = l.findSome? fun v => (f v).findSome? k := by
  have h := findSome?_flatMap_filter (k := k) (fun _ => true) f l
  rwa [List.filter_eq_self.mpr fun _ _ => rfl] at h

/-- The turns with a continuation are the search among their results. -/
theorem runTurns_eq {m : List α → (List α → Option (List α)) → Option (List α)}
    {t : List α → List (List α)} (hm : ∀ w k, m w k = (t w).findSome? k) (n : Nat) :
    runTurns m n w k = (turns t n w).findSome? k := by
  induction n generalizing w with
  | zero => rw [runTurns, turns, List.findSome?_singleton]
  | succ n ih =>
      simp only [runTurns, turns, hm, ih, List.findSome?_append, findSome?_flatMap_filter,
        List.findSome?_singleton, decide_eq_true_eq]
      cases (t w).findSome? fun v =>
        if v.length < w.length then (turns t n v).findSome? k else none <;> rfl

/-- The matcher finds the first of what it tries. -/
theorem run_eq : run r w k = (rests r w).findSome? k := by
  induction r generalizing w k with
  | eps => rw [run, rests, List.findSome?_singleton]
  | char p =>
      cases w with
      | nil => rfl
      | cons c w =>
          rw [run, rests]
          split
          · rw [List.findSome?_singleton]
          · rfl
  | seq r s ihr ihs =>
      simp only [run, rests, ihr, ihs, findSome?_flatMap]
  | alt r s ihr ihs =>
      rw [run, rests, List.findSome?_append, ihr, ihs]
      cases (rests r w).findSome? k <;> rfl
  | star r ih =>
      have hturn (v : List α) (k) : run r v k = (rests r v).findSome? k := ih
      exact runTurns_eq hturn w.length
  | ahead r ih =>
      rw [run, rests, ih]
      cases rests r w <;> simp

/-- The run without a condition finds the first result. -/
theorem run_some : run r w some = (rests r w).head? := by
  rw [run_eq]
  cases rests r w <;> rfl

/-- The whole word matches where some result leaves nothing. -/
theorem matchesWhole_iff : matchesWhole r w = true ↔ [] ∈ rests r w := by
  simp only [matchesWhole, run_eq, List.findSome?_isSome_iff]
  constructor
  · rintro ⟨rest, hmem, h⟩
    cases rest with
    | nil => exact hmem
    | cons => cases h
  · intro h
    exact ⟨[], h, rfl⟩

end Tries

/-! ## Whole matches -/

section Whole

variable {p : α → Bool} {r s : Expr α} {w rest : List α}

@[simp] theorem mem_rests_eps : rest ∈ rests .eps w ↔ w = rest := by
  simp only [rests, List.mem_singleton, eq_comm]

@[simp] theorem mem_rests_char : rest ∈ rests (.char p) w ↔ ∃ c, p c = true ∧ w = c :: rest := by
  cases w with
  | nil => simp [rests]
  | cons c w =>
      by_cases hc : p c = true
      · rw [rests, if_pos hc, List.mem_singleton]
        constructor
        · rintro rfl
          exact ⟨c, hc, rfl⟩
        · rintro ⟨d, -, h⟩
          exact (List.cons.inj h).2.symm
      · simp only [rests, if_neg hc, List.not_mem_nil, false_iff]
        rintro ⟨d, hd, h⟩
        cases h
        exact hc hd

@[simp] theorem mem_rests_seq :
    rest ∈ rests (.seq r s) w ↔ ∃ mid ∈ rests r w, rest ∈ rests s mid := List.mem_flatMap

@[simp] theorem mem_rests_alt :
    rest ∈ rests (.alt r s) w ↔ rest ∈ rests r w ∨ rest ∈ rests s w := List.mem_append

@[simp] theorem mem_rests_lit [BEq α] [LawfulBEq α] {c : α} :
    rest ∈ rests (lit c) w ↔ w = c :: rest := by
  simp only [lit, mem_rests_char, beq_iff_eq, exists_eq_left]

/-- The turns of a character class, with what they take. -/
theorem mem_turns_char {n : Nat} (hn : w.length ≤ n) :
    rest ∈ turns (rests (.char p)) n w ↔ ∃ h, (∀ c ∈ h, p c = true) ∧ w = h ++ rest := by
  induction n generalizing w with
  | zero =>
      obtain rfl := List.eq_nil_of_length_eq_zero (Nat.le_zero.mp hn)
      rw [turns, List.mem_singleton]
      constructor
      · rintro rfl
        exact ⟨[], nofun, rfl⟩
      · rintro ⟨h, -, hw⟩
        exact (List.append_eq_nil_iff.mp hw.symm).2
  | succ n ih =>
      simp only [turns, List.mem_append, List.mem_flatMap, List.mem_filter, mem_rests_char,
        List.mem_singleton, decide_eq_true_eq]
      constructor
      · rintro (⟨mid, ⟨⟨c, hc, rfl⟩, -⟩, hrest⟩ | rfl)
        · obtain ⟨h, hall, rfl⟩ := (ih (Nat.le_of_succ_le_succ hn)).mp hrest
          exact ⟨c :: h, List.forall_mem_cons.mpr ⟨hc, hall⟩, rfl⟩
        · exact ⟨[], nofun, rfl⟩
      · rintro ⟨h, hall, rfl⟩
        cases h with
        | nil => exact .inr rfl
        | cons c h =>
            obtain ⟨hc, hall⟩ := List.forall_mem_cons.mp hall
            refine .inl ⟨h ++ rest, ⟨⟨c, hc, rfl⟩, Nat.lt_succ_self _⟩, ?_⟩
            exact (ih (Nat.le_of_succ_le_succ hn)).mpr ⟨h, hall, rfl⟩

/-- A star of a character leaves what is behind any run of such characters. -/
@[simp] theorem mem_rests_star_char :
    rest ∈ rests (.star (.char p)) w ↔ ∃ h, (∀ c ∈ h, p c = true) ∧ w = h ++ rest :=
  mem_turns_char (Nat.le_refl _)

/-- One or more characters of a class. -/
theorem mem_rests_plus_char : rest ∈ rests (plus (.char p)) w ↔
    ∃ h, h ≠ [] ∧ (∀ c ∈ h, p c = true) ∧ w = h ++ rest := by
  simp only [plus, mem_rests_seq, mem_rests_char, mem_rests_star_char]
  constructor
  · rintro ⟨mid, ⟨c, hc, rfl⟩, h, hall, rfl⟩
    exact ⟨c :: h, List.cons_ne_nil c h, List.forall_mem_cons.mpr ⟨hc, hall⟩, rfl⟩
  · rintro ⟨h, hne, hall, rfl⟩
    obtain ⟨c, h, rfl⟩ := List.exists_cons_of_ne_nil hne
    obtain ⟨hc, hall⟩ := List.forall_mem_cons.mp hall
    exact ⟨h ++ rest, ⟨c, hc, rfl⟩, h, hall, rfl⟩

/-- The texts that an expression takes from the start of any text are those in `P`. -/
def Matches (r : Expr α) (P : List α → Prop) : Prop :=
  ∀ w rest, rest ∈ rests r w ↔ ∃ h, P h ∧ w = h ++ rest

section Matches

variable {P Q : List α → Prop}

/-- The whole word matches where it is one of the language. -/
theorem Matches.whole (hr : Matches r P) : matchesWhole r w = true ↔ P w := by
  rw [matchesWhole_iff, hr]
  constructor
  · rintro ⟨h, hP, rfl⟩
    rwa [List.append_nil]
  · intro hP
    exact ⟨w, hP, (List.append_nil w).symm⟩

/-- Languages with the same words. -/
theorem Matches.congr (hr : Matches r P) (hPQ : ∀ h, P h ↔ Q h) : Matches r Q := by
  obtain rfl : P = Q := funext fun h => propext (hPQ h)
  exact hr

theorem matches_eps : Matches (α := α) .eps (· = []) := by
  intro w rest
  rw [mem_rests_eps]
  constructor
  · rintro rfl
    exact ⟨[], rfl, rfl⟩
  · rintro ⟨_, rfl, rfl⟩
    rfl

theorem matches_lit [BEq α] [LawfulBEq α] (c : α) : Matches (lit c) (· = [c]) := by
  intro w rest
  rw [mem_rests_lit]
  constructor
  · rintro rfl
    exact ⟨[c], rfl, rfl⟩
  · rintro ⟨_, rfl, rfl⟩
    rfl

theorem matches_plus_char : Matches (plus (.char p)) fun h => h ≠ [] ∧ ∀ c ∈ h, p c = true := by
  intro w rest
  rw [mem_rests_plus_char]
  constructor
  · rintro ⟨h, hne, hall, hw⟩
    exact ⟨h, ⟨hne, hall⟩, hw⟩
  · rintro ⟨h, ⟨hne, hall⟩, hw⟩
    exact ⟨h, hne, hall, hw⟩

/-- A sequence takes a word of the first and then one of the second. -/
theorem Matches.seq (hr : Matches r P) (hs : Matches s Q) :
    Matches (.seq r s) fun h => ∃ a b, P a ∧ Q b ∧ h = a ++ b := by
  intro w rest
  rw [mem_rests_seq]
  constructor
  · rintro ⟨mid, hmid, hrest⟩
    obtain ⟨a, ha, rfl⟩ := (hr _ _).mp hmid
    obtain ⟨b, hb, rfl⟩ := (hs _ _).mp hrest
    exact ⟨a ++ b, ⟨a, b, ha, hb, rfl⟩, (List.append_assoc a b rest).symm⟩
  · rintro ⟨_, ⟨a, b, ha, hb, rfl⟩, rfl⟩
    refine ⟨b ++ rest, (hr _ _).mpr ⟨a, ha, List.append_assoc a b rest⟩, ?_⟩
    exact (hs _ _).mpr ⟨b, hb, rfl⟩

/-- An alternative takes a word of either. -/
theorem Matches.alt (hr : Matches r P) (hs : Matches s Q) :
    Matches (.alt r s) fun h => P h ∨ Q h := by
  intro w rest
  rw [mem_rests_alt, hr, hs]
  constructor
  · rintro (⟨h, hP, hw⟩ | ⟨h, hQ, hw⟩)
    · exact ⟨h, .inl hP, hw⟩
    · exact ⟨h, .inr hQ, hw⟩
  · rintro ⟨h, hP | hQ, hw⟩
    · exact .inl ⟨h, hP, hw⟩
    · exact .inr ⟨h, hQ, hw⟩

/-- Turns take words of the language, one after another. -/
theorem Matches.turns (hr : Matches r P) (hP : ∀ h, P h → h ≠ []) {n : Nat} (hn : w.length ≤ n) :
    rest ∈ turns (rests r) n w ↔
      ∃ hs : List (List α), (∀ h ∈ hs, P h) ∧ w = hs.flatten ++ rest := by
  induction n generalizing w with
  | zero =>
      obtain rfl := List.eq_nil_of_length_eq_zero (Nat.le_zero.mp hn)
      rw [Regex.turns, List.mem_singleton]
      constructor
      · rintro rfl
        exact ⟨[], nofun, rfl⟩
      · rintro ⟨hs, -, hw⟩
        exact (List.append_eq_nil_iff.mp hw.symm).2
  | succ n ih =>
      simp only [Regex.turns, List.mem_append, List.mem_flatMap, List.mem_filter,
        List.mem_singleton, decide_eq_true_eq, hr w _]
      constructor
      · rintro (⟨mid, ⟨⟨h, hh, rfl⟩, hlt⟩, hrest⟩ | rfl)
        · obtain ⟨hs, hall, rfl⟩ := (ih (by omega)).mp hrest
          refine ⟨h :: hs, List.forall_mem_cons.mpr ⟨hh, hall⟩, ?_⟩
          rw [List.flatten_cons, List.append_assoc]
        · exact ⟨[], nofun, rfl⟩
      · rintro ⟨hs, hall, rfl⟩
        cases hs with
        | nil => exact .inr rfl
        | cons h hs =>
            obtain ⟨hh, hall⟩ := List.forall_mem_cons.mp hall
            have hpos := List.length_pos_iff.mpr (hP h hh)
            rw [List.flatten_cons, List.append_assoc] at hn ⊢
            rw [List.length_append] at hn
            refine .inl ⟨hs.flatten ++ rest, ⟨⟨h, hh, rfl⟩, ?_⟩, ?_⟩
            · simp only [List.length_append]
              omega
            · exact (ih (by omega)).mpr ⟨hs, hall, rfl⟩

/-- The turns of an expression that takes no empty text. -/
theorem Matches.plus (hr : Matches r P) (hP : ∀ h, P h → h ≠ []) :
    Matches (plus r) fun h => ∃ hs : List (List α), hs ≠ [] ∧ (∀ h ∈ hs, P h) ∧ h = hs.flatten := by
  have hstar : Matches (.star r) fun h =>
      ∃ hs : List (List α), (∀ h ∈ hs, P h) ∧ h = hs.flatten := by
    intro w rest
    have hturns : rest ∈ rests (.star r) w ↔
        ∃ hs : List (List α), (∀ h ∈ hs, P h) ∧ w = hs.flatten ++ rest :=
      hr.turns hP (Nat.le_refl _)
    constructor
    · intro h
      obtain ⟨hs, hall, hw⟩ := hturns.mp h
      exact ⟨_, ⟨hs, hall, rfl⟩, hw⟩
    · rintro ⟨_, ⟨hs, hall, rfl⟩, hw⟩
      exact hturns.mpr ⟨hs, hall, hw⟩
  refine (hr.seq hstar).congr fun h => ?_
  constructor
  · rintro ⟨a, _, ha, ⟨hs, hall, rfl⟩, rfl⟩
    exact ⟨a :: hs, List.cons_ne_nil a hs, List.forall_mem_cons.mpr ⟨ha, hall⟩, rfl⟩
  · rintro ⟨hs, hne, hall, rfl⟩
    obtain ⟨a, hs, rfl⟩ := List.exists_cons_of_ne_nil hne
    obtain ⟨ha, hall⟩ := List.forall_mem_cons.mp hall
    exact ⟨a, hs.flatten, ha, ⟨hs, hall, rfl⟩, rfl⟩

/-- An option takes a word, or nothing. -/
theorem Matches.opt (hr : Matches r P) : Matches (opt r) fun h => P h ∨ h = [] :=
  hr.alt matches_eps

/-- A sequence that begins with letters. -/
theorem matches_lits [BEq α] [LawfulBEq α] (cs : List α) (rs : List (Expr α))
    (hrs : Matches (seqs rs) P) :
    Matches (seqs (cs.map lit ++ rs)) fun h => ∃ b, P b ∧ h = cs ++ b := by
  induction cs with
  | nil =>
      refine hrs.congr fun h => ?_
      constructor
      · intro hP
        exact ⟨h, hP, rfl⟩
      · rintro ⟨_, hP, rfl⟩
        exact hP
  | cons c cs ih =>
      refine ((matches_lit c).seq ih).congr fun h => ?_
      constructor
      · rintro ⟨_, _, rfl, ⟨b, hP, rfl⟩, rfl⟩
        exact ⟨b, hP, rfl⟩
      · rintro ⟨b, hP, rfl⟩
        exact ⟨[c], cs ++ b, rfl, ⟨b, hP, rfl⟩, rfl⟩

end Matches

end Whole

/-! ## One match after the other -/

section All

variable {r : Expr α} {w rest found : List α}

/-- Every match takes a character. -/
def Advances (r : Expr α) : Prop := ∀ w rest, rest ∈ rests r w → rest.length < w.length

/-- A search with an expression that takes something leaves less. -/
theorem Advances.search (hr : Advances r) (h : search r w = some (found, rest)) :
    rest.length < w.length := by
  induction w with
  | nil =>
      rw [Regex.search, run_some] at h
      obtain ⟨v, hv, -⟩ := Option.map_eq_some_iff.mp h
      exact absurd (hr _ _ (List.mem_of_head? hv)) (Nat.not_lt_zero _)
  | cons c w ih =>
      rw [Regex.search, run_some] at h
      cases hv : (rests r (c :: w)).head? with
      | none =>
          rw [hv] at h
          exact Nat.lt_succ_of_lt (ih h)
      | some v =>
          rw [hv] at h
          cases h
          exact hr _ _ (List.mem_of_head? hv)

/-- For such an expression any bound that is large enough gives the same. -/
theorem Advances.findUpTo (hr : Advances r) {m n : Nat} (hm : w.length ≤ m) (hn : w.length ≤ n) :
    findUpTo r m w = findUpTo r n w := by
  have hnil : ∀ k, Regex.findUpTo r k [] = [] := by
    intro k
    cases k with
    | zero => rfl
    | succ k =>
        rw [Regex.findUpTo]
        cases hs : Regex.search r [] with
        | none => rfl
        | some f => exact absurd (hr.search hs) (Nat.not_lt_zero _)
  induction m generalizing n w with
  | zero =>
      obtain rfl := List.eq_nil_of_length_eq_zero (Nat.le_zero.mp hm)
      rw [hnil, hnil]
  | succ m ih =>
      cases n with
      | zero =>
          obtain rfl := List.eq_nil_of_length_eq_zero (Nat.le_zero.mp hn)
          rw [hnil, hnil]
      | succ n =>
          rw [Regex.findUpTo, Regex.findUpTo]
          cases hs : Regex.search r w with
          | none => rfl
          | some f =>
              have hlt := hr.search hs
              dsimp only
              rw [ih (n := n) (by omega) (by omega)]

/-- All matches are the first and those in the rest. -/
theorem Advances.findAll_found (hr : Advances r) (h : Regex.search r w = some (found, rest)) :
    findAll r w = found :: findAll r rest := by
  have hlt := hr.search h
  obtain ⟨n, hn⟩ : ∃ n, w.length = n + 1 := ⟨w.length - 1, by omega⟩
  rw [findAll, hn, Regex.findUpTo, h]
  dsimp only
  rw [hr.findUpTo (n := rest.length) (by omega) (Nat.le_refl _), findAll]

/-- Where the search finds nothing there are no matches. -/
theorem findAll_none (h : Regex.search r w = none) : findAll r w = [] := by
  rw [findAll]
  cases w.length with
  | zero => rfl
  | succ n => rw [Regex.findUpTo, h]

/-- A text is not without matches if there is one at its start. -/
theorem findAll_ne_nil (hw : w ≠ []) (h : rest ∈ rests r w) : findAll r w ≠ [] := by
  obtain ⟨c, w, rfl⟩ := List.exists_cons_of_ne_nil hw
  rw [findAll, List.length_cons, Regex.findUpTo, Regex.search, run_some]
  cases hv : (rests r (c :: w)).head? with
  | none =>
      rw [List.head?_eq_none_iff.mp hv] at h
      cases h
  | some v => exact List.cons_ne_nil _ _

end All

/-! ## Runs -/

section Runs

variable {p : α → Bool} {r : Expr α} {w rest : List α}

/-- The first result of the turns of a class is the longest. -/
theorem head_turns_char {n : Nat} (hn : w.length ≤ n) :
    (turns (rests (.char p)) n w).head? = some (w.dropWhile p) := by
  induction n generalizing w with
  | zero =>
      obtain rfl := List.eq_nil_of_length_eq_zero (Nat.le_zero.mp hn)
      rfl
  | succ n ih =>
      cases w with
      | nil => rfl
      | cons c w =>
          by_cases hc : p c = true
          · have hw := ih (Nat.le_of_succ_le_succ hn)
            simp only [turns, rests, if_pos hc, List.filter_cons, List.filter_nil,
              List.length_cons, Nat.lt_succ_self, decide_true, if_true, List.flatMap_cons,
              List.flatMap_nil, List.append_nil, List.head?_append, hw, Option.some_or,
              List.dropWhile_cons_of_pos hc]
          · simp [turns, rests, hc]

/-- A run is taken whole. -/
theorem head_rests_plus_run {h : List α} (hne : h ≠ []) (hall : ∀ c ∈ h, p c = true)
    (hrest : ∀ c ∈ rest.head?, p c = false) :
    (rests (plus (.char p)) (h ++ rest)).head? = some rest := by
  obtain ⟨c, h, rfl⟩ := List.exists_cons_of_ne_nil hne
  obtain ⟨hc, hall⟩ := List.forall_mem_cons.mp hall
  have hdrop : (h ++ rest).dropWhile p = rest := by
    rw [List.dropWhile_append_of_pos hall]
    cases rest with
    | nil => rfl
    | cons d rest => exact List.dropWhile_cons_of_neg (by rw [hrest d rfl]; exact Bool.false_ne_true)
  rw [List.cons_append, plus, rests, rests, if_pos hc, List.flatMap_singleton, rests,
    head_turns_char (Nat.le_refl _), hdrop]

/-- A match at the start is found first. -/
theorem search_of_head {h : List α} (hne : h ≠ [])
    (hhead : (rests r (h ++ rest)).head? = some rest) : search r (h ++ rest) = some (h, rest) := by
  obtain ⟨c, h, rfl⟩ := List.exists_cons_of_ne_nil hne
  rw [List.cons_append] at hhead ⊢
  rw [search, run_some, hhead]
  dsimp only
  rw [← List.cons_append, before, List.length_append, Nat.add_sub_cancel, List.take_left]

/-- At a run of the class the search takes the run. -/
theorem search_plus_run {h : List α} (hne : h ≠ []) (hall : ∀ c ∈ h, p c = true)
    (hrest : ∀ c ∈ rest.head?, p c = false) :
    search (plus (.char p)) (h ++ rest) = some (h, rest) :=
  search_of_head hne (head_rests_plus_run hne hall hrest)

/-- A character outside the class is skipped. -/
theorem search_plus_skip {c : α} (hc : p c = false) :
    search (plus (.char p)) (c :: w) = search (plus (.char p)) w := by
  have hhead : (rests (plus (.char p)) (c :: w)).head? = none := by
    simp [plus, rests, hc]
  rw [search, run_some, hhead]

/-- One or more characters are at least one. -/
theorem plus_char_advances : Advances (plus (.char p)) := by
  intro w rest h
  obtain ⟨t, hne, -, rfl⟩ := mem_rests_plus_char.mp h
  have hpos := List.length_pos_iff.mpr hne
  rw [List.length_append]
  omega

/-- The runs of a text are found one after the other. -/
theorem findAll_plus_run {h : List α} (hne : h ≠ []) (hall : ∀ c ∈ h, p c = true)
    (hrest : ∀ c ∈ rest.head?, p c = false) :
    findAll (plus (.char p)) (h ++ rest) = h :: findAll (plus (.char p)) rest :=
  plus_char_advances.findAll_found (search_plus_run hne hall hrest)

theorem findAll_plus_skip {c : α} (hc : p c = false) :
    findAll (plus (.char p)) (c :: w) = findAll (plus (.char p)) w := by
  cases hs : search (plus (.char p)) w with
  | none => rw [findAll_none hs, findAll_none (by rw [search_plus_skip hc, hs])]
  | some f =>
      rw [plus_char_advances.findAll_found hs,
        plus_char_advances.findAll_found (by rw [search_plus_skip hc, hs])]

end Runs

end Regex
