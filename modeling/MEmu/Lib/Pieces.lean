import Mathlib.Data.List.Basic
import Mathlib.Tactic.Common

/-!
# A stream that arrives in pieces

A stream is a list of pieces, none of them empty.  A reader that reads ahead takes whole pieces
into a buffer of its own, and a reader that does not takes one item of the first piece.
`ReadAhead` is what the first of the two has read, holds and left.  Its buffer is empty exactly
where what it read ends with a piece.
-/

namespace Pieces

variable {α : Type}

/-- Items that arrive together. -/
structure Piece (α : Type) where
  first : α
  others : List α

namespace Piece

def items (p : Piece α) : List α := p.first :: p.others

/-- What is left of a piece after its first item. -/
def pop (p : Piece α) : List (Piece α) :=
  match p.others with
  | [] => []
  | x :: others => [⟨x, others⟩]

end Piece

/-- The stream. -/
def contents (ps : List (Piece α)) : List α := ps.flatMap Piece.items

section Contents

variable {ps qs : List (Piece α)} {p : Piece α}

@[simp] theorem contents_nil : contents ([] : List (Piece α)) = [] := rfl

@[simp] theorem contents_cons : contents (p :: ps) = p.first :: (p.others ++ contents ps) := rfl

@[simp] theorem contents_append : contents (ps ++ qs) = contents ps ++ contents qs :=
  List.flatMap_append

@[simp] theorem contents_pop : contents p.pop = p.others := by
  unfold Piece.pop
  split
  · rename_i h
    rw [h]
    rfl
  · rename_i x others h
    rw [h, contents_cons, contents_nil, List.append_nil]

end Contents

/-- The items end with a piece of the stream. -/
def EndsPiece (ps : List (Piece α)) (read : List α) : Prop := ∃ n, contents (ps.take n) = read

/-- From the pieces `ps`, a reader that reads ahead has read `read`.  It holds `buf` and has left
the pieces `left`. -/
structure ReadAhead (ps : List (Piece α)) (read buf : List α) (left : List (Piece α)) : Prop where
  taken : ∃ taken, ps = taken ++ left ∧ read ++ buf = contents taken ∧
    -- an item of the last piece has been read
    ∀ p ∈ taken.getLast?, buf.length < p.items.length

namespace ReadAhead

variable {ps left : List (Piece α)} {read buf : List α} {p : Piece α} {x : α}

theorem start (ps : List (Piece α)) : ReadAhead ps [] [] ps := ⟨[], rfl, rfl, nofun⟩

theorem fromBuffer (h : ReadAhead ps read (x :: buf) left) :
    ReadAhead ps (read ++ [x]) buf left := by
  obtain ⟨taken, hps, hread, hlast⟩ := h.taken
  refine ⟨taken, hps, by rw [← hread, List.append_assoc, List.singleton_append], fun p hp => ?_⟩
  exact Nat.lt_of_succ_lt (hlast p hp)

theorem fromPiece (h : ReadAhead ps read [] (p :: left)) :
    ReadAhead ps (read ++ [p.first]) p.others left := by
  obtain ⟨taken, hps, hread, -⟩ := h.taken
  refine ⟨taken ++ [p], by rw [hps, List.append_assoc, List.singleton_append], ?_, fun q hq => ?_⟩
  · rw [contents_append, ← hread, List.append_nil, contents_cons, contents_nil, List.append_nil,
      List.append_assoc, List.singleton_append]
  · obtain rfl : p = q := by simpa using hq
    exact Nat.lt_succ_self _

/-- Nothing is lost as long as the buffer is there. -/
theorem contents_eq (h : ReadAhead ps read buf left) : contents ps = read ++ buf ++ contents left := by
  obtain ⟨taken, hps, hread, -⟩ := h.taken
  rw [hps, contents_append, hread]

/-- The buffer is empty exactly where what was read ends with a piece. -/
theorem buf_eq_nil_iff (h : ReadAhead ps read buf left) : buf = [] ↔ EndsPiece ps read := by
  obtain ⟨taken, rfl, hread, hlast⟩ := h.taken
  constructor
  · rintro rfl
    refine ⟨taken.length, ?_⟩
    rw [List.take_left, ← hread, List.append_nil]
  · rintro ⟨n, hn⟩
    by_contra hne
    have hpos : 0 < buf.length := List.length_pos_iff.mpr hne
    have hlen := congrArg List.length hread
    rw [List.length_append] at hlen
    rcases Nat.lt_or_ge n taken.length with hlt | hge
    · have htake : (taken ++ left).take n = taken.take n := List.take_append_of_le_length (Nat.le_of_lt hlt)
      have hsplit := congrArg List.length (congrArg contents (taken.take_append_drop n))
      have hdrop : taken.drop n ≠ [] := by
        rw [Ne, List.drop_eq_nil_iff]
        omega
      obtain ⟨init, p, hp⟩ := List.eq_nil_or_concat' (taken.drop n) |>.resolve_left hdrop
      have hmem : p ∈ taken.getLast? := by
        rw [← taken.take_append_drop n, hp, ← List.append_assoc, List.getLast?_concat]
        rfl
      have hp' := hlast p hmem
      rw [htake] at hn
      rw [hp, contents_append, contents_append, hn, List.length_append, List.length_append] at hsplit
      have hone : (contents [p]).length = p.items.length := by
        rw [contents_cons, contents_nil, List.append_nil, Piece.items]
      omega
    · obtain ⟨more, hmore⟩ : ∃ more, (taken ++ left).take n = taken ++ more :=
        ⟨left.take (n - taken.length), by rw [List.take_append, List.take_of_length_le hge]⟩
      rw [hmore, contents_append] at hn
      have hn' := congrArg List.length hn
      rw [List.length_append] at hn'
      omega

end ReadAhead

end Pieces
