import Mathlib
import Knok.Arrays.Broadcast

/-!
# Matrix products of arrays

The product of two arrays contracts the last axis of the left with the last but
one of the right; the axes before are batch axes, which broadcast.  A vector on
either side has only the contracted axis.
-/

namespace Arrays

/-- The axes before the matrix. -/
def batchShape (shape : List ℕ) : List ℕ := shape.take (shape.length - 2)

/-- How many matrix axes an operand gives to the product: none for a vector. -/
def matrixAxes (shape : List ℕ) : ℕ := if shape.length = 1 then 0 else 1

/-- The position of the left operand that a result position reads. -/
def matmulLhsPosition (lhs rhs i : List ℕ) (k : ℕ) : List ℕ :=
  if lhs.length = 1 then [k]
  else
    let batchRank := i.length - matrixAxes lhs - matrixAxes rhs
    broadcastIndex (batchShape lhs) (i.take batchRank) ++ [i.getD batchRank 0, k]

/-- The position of the right operand that a result position reads. -/
def matmulRhsPosition (lhs rhs i : List ℕ) (k : ℕ) : List ℕ :=
  if rhs.length = 1 then [k]
  else
    let batchRank := i.length - matrixAxes lhs - matrixAxes rhs
    broadcastIndex (batchShape rhs) (i.take batchRank) ++ [k, i.getD (i.length - 1) 0]

/-- The product of two arrays. -/
def matmul {R : Type*} [NonUnitalNonAssocSemiring R] (lhs rhs : List ℕ) (a b : List ℕ → R)
    (i : List ℕ) : R :=
  ∑ k ∈ Finset.range (lhs.getD (lhs.length - 1) 0),
    a (matmulLhsPosition lhs rhs i k) * b (matmulRhsPosition lhs rhs i k)

/-- The shape of a product with a given batch. -/
def matmulShape (batch lhs rhs : List ℕ) : List ℕ :=
  batch ++ ((if lhs.length = 1 then [] else [lhs.getD (lhs.length - 2) 0]) ++
    (if rhs.length = 1 then [] else [rhs.getD (rhs.length - 1) 0]))

theorem eq_batchShape_append {shape : List ℕ} (h : 2 ≤ shape.length) :
    shape = batchShape shape ++
      [shape.getD (shape.length - 2) 0, shape.getD (shape.length - 1) 0] := by
  have hlen : (batchShape shape).length = shape.length - 2 := by
    rw [batchShape, List.length_take]
    omega
  refine ext_getD (by simp [hlen]; omega) fun axis haxis => ?_
  rcases Nat.lt_or_ge axis (shape.length - 2) with hlt | hge
  · rw [List.getD_append _ _ _ _ (by omega), batchShape, List.getD_eq_getElem?_getD,
      List.getD_eq_getElem?_getD, List.getElem?_take_of_lt hlt]
  · rw [List.getD_append_right _ _ _ _ (by omega), hlen]
    rcases Nat.eq_or_lt_of_le hge with heq | hgt
    · rw [← heq, Nat.sub_self]
      rfl
    · rw [show axis = shape.length - 1 by omega,
        show shape.length - 1 - (shape.length - 2) = 1 by omega]
      rfl

theorem batchShape_of_length_le_two {shape : List ℕ} (h : shape.length ≤ 2) :
    batchShape shape = [] := by
  rw [batchShape, Nat.sub_eq_zero_of_le h, List.take_zero]

theorem length_batchShape (shape : List ℕ) : (batchShape shape).length = shape.length - 2 := by
  rw [batchShape, List.length_take]
  omega

/-! ## Taking a result position apart -/

section Positions

variable {batch lhs rhs i : List ℕ}

theorem length_matmulShape : (matmulShape batch lhs rhs).length =
    batch.length + matrixAxes lhs + matrixAxes rhs := by
  unfold matmulShape matrixAxes
  split_ifs <;> simp

theorem batchRank_eq (hi : InBounds i (matmulShape batch lhs rhs)) :
    i.length - matrixAxes lhs - matrixAxes rhs = batch.length := by
  rw [hi.length_eq, length_matmulShape]
  omega

theorem inBounds_take_batch (hi : InBounds i (matmulShape batch lhs rhs)) :
    InBounds (i.take batch.length) batch := by
  have htake := List.forall₂_take batch.length hi
  rwa [matmulShape, List.take_left'] at htake
  rfl

/-- The coordinate along the left operand's matrix axis. -/
theorem getD_row_lt (hlhs : lhs.length ≠ 1) (hi : InBounds i (matmulShape batch lhs rhs)) :
    i.getD batch.length 0 < lhs.getD (lhs.length - 2) 0 := by
  have hlt := hi.getD_lt (show batch.length < (matmulShape batch lhs rhs).length by
    rw [length_matmulShape, matrixAxes, if_neg hlhs]
    omega)
  rwa [matmulShape, if_neg hlhs, List.getD_append_right _ _ _ _ le_rfl, Nat.sub_self] at hlt

/-- The coordinate along the right operand's matrix axis. -/
theorem getD_col_lt (hrhs : rhs.length ≠ 1) (hi : InBounds i (matmulShape batch lhs rhs)) :
    i.getD (i.length - 1) 0 < rhs.getD (rhs.length - 1) 0 := by
  have hlast : i.length - 1 =
      (batch ++ if lhs.length = 1 then [] else [lhs.getD (lhs.length - 2) 0]).length := by
    rw [hi.length_eq, length_matmulShape, matrixAxes, matrixAxes, if_neg hrhs]
    split_ifs <;> simp
  have hlt := hi.getD_lt (show i.length - 1 < (matmulShape batch lhs rhs).length by
    rw [hi.length_eq, length_matmulShape, matrixAxes, matrixAxes, if_neg hrhs]
    omega)
  rw [hlast] at hlt ⊢
  rwa [matmulShape, if_neg hrhs, ← List.append_assoc, List.getD_append_right _ _ _ _ le_rfl,
    Nat.sub_self] at hlt

/-- Positions of the product read positions of the left operand. -/
theorem inBounds_matmulLhsPosition (hbatch : BroadcastsTo (batchShape lhs) batch)
    (hpos : lhs.length ≠ 0) (hi : InBounds i (matmulShape batch lhs rhs)) {k : ℕ}
    (hk : k < lhs.getD (lhs.length - 1) 0) : InBounds (matmulLhsPosition lhs rhs i k) lhs := by
  unfold matmulLhsPosition
  split_ifs with hvector
  · obtain ⟨dim, rfl⟩ := List.length_eq_one_iff.mp hvector
    exact .cons hk .nil
  · dsimp only
    rw [batchRank_eq hi]
    conv => rhs; rw [eq_batchShape_append (show 2 ≤ lhs.length by omega)]
    exact inBounds_append (hbatch.inBounds (inBounds_take_batch hi))
      (.cons (getD_row_lt hvector hi) (.cons hk .nil))

/-- Positions of the product read positions of the right operand. -/
theorem inBounds_matmulRhsPosition (hbatch : BroadcastsTo (batchShape rhs) batch)
    (hpos : rhs.length ≠ 0) (hi : InBounds i (matmulShape batch lhs rhs)) {k : ℕ}
    (hk : k < if rhs.length = 1 then rhs.getD 0 0 else rhs.getD (rhs.length - 2) 0) :
    InBounds (matmulRhsPosition lhs rhs i k) rhs := by
  unfold matmulRhsPosition
  split_ifs at hk ⊢ with hvector
  · obtain ⟨dim, rfl⟩ := List.length_eq_one_iff.mp hvector
    exact .cons hk .nil
  · dsimp only
    rw [batchRank_eq hi]
    conv => rhs; rw [eq_batchShape_append (show 2 ≤ rhs.length by omega)]
    exact inBounds_append (hbatch.inBounds (inBounds_take_batch hi))
      (.cons hk (.cons (getD_col_lt hvector hi) .nil))

end Positions

end Arrays
