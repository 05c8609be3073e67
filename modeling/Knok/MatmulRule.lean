import Mathlib
import Knok.Broadcast
import Knok.Arrays.Contraction

/-!
# The type rule of `matmul`

What the rule accepts, in terms of array products: the contracted dimensions
agree, the batch shapes have a joined shape, and the result has the shape of the
product over it.
-/

namespace Knok

open Arrays Control

theorem matmulBatch_eq (ty : TensorType) : matmulBatch ty = batchShape ty.shape := by
  unfold matmulBatch
  split_ifs with h
  · rfl
  · exact (batchShape_of_length_le_two (Nat.not_lt.mp h)).symm

/-- The contracted dimension of the left operand. -/
theorem matmulLhsK_eq (ty : TensorType) :
    matmulLhsK ty = ty.shape.getD (ty.shape.length - 1) 0 := by
  unfold matmulLhsK
  split_ifs with hone
  · rw [TensorType.dim, ← TensorType.rank, hone]
  · rfl

/-- The contracted dimension of the right operand. -/
theorem matmulRhsK_eq (ty : TensorType) :
    matmulRhsK ty = if ty.shape.length = 1 then ty.shape.getD 0 0
      else ty.shape.getD (ty.shape.length - 2) 0 := rfl

/-- What an accepted pair of operands satisfies. -/
structure MatmulTypes (lhs rhs ty : TensorType) (batch : List ℕ) : Prop where
  elem : lhs.elem = rhs.elem
  numeric : lhs.elem.isNumeric = true
  lhs_rank : lhs.rank ≠ 0 ∧ lhs.rank ≤ maxTensorRank
  rhs_rank : rhs.rank ≠ 0 ∧ rhs.rank ≤ maxTensorRank
  contracted : matmulLhsK lhs = matmulRhsK rhs
  broadcast : broadcastShapeSlices (batchShape lhs.shape) (batchShape rhs.shape) = .ok batch
  rank_le : ty.rank ≤ maxTensorRank
  ty_eq : ty = ⟨lhs.elem, matmulShape batch lhs.shape rhs.shape⟩

/-- **The type rule of `matmul`.** -/
theorem matmulResultType_eq_ok_iff {lhs rhs ty : TensorType} :
    matmulResultType lhs rhs = .ok ty ↔ ∃ batch, MatmulTypes lhs rhs ty batch := by
  unfold matmulResultType
  simp only [except_bind_eq_ok_iff, failIf_eq_ok_iff, expectNumericElement, exists_const,
    matmulBatch_eq, bne_eq_false_iff_eq, Bool.not_eq_false', Bool.or_eq_false_iff,
    beq_eq_false_iff_ne, decide_eq_false_iff_not, Nat.not_lt]
  cases hbatch : broadcastShapeSlices (batchShape lhs.shape) (batchShape rhs.shape) with
  | error message =>
      simp only [reduceCtorEq, and_false, false_iff]
      rintro ⟨batch, h⟩
      rw [h.broadcast] at hbatch
      cases hbatch
  | ok batch =>
      have hshape : batch ++ matmulMatrixDims lhs rhs =
          matmulShape batch lhs.shape rhs.shape := rfl
      simp only [except_bind_eq_ok_iff, failIf_eq_ok_iff, exists_const, decide_eq_false_iff_not,
        Nat.not_lt, except_pure_eq_ok_iff, hshape]
      constructor
      · rintro ⟨helem, hnumeric, ⟨hl, hr⟩, ⟨hl', hr'⟩, hk, hrank, rfl⟩
        exact ⟨batch, helem, hnumeric, ⟨hl, hl'⟩, ⟨hr, hr'⟩, hk, hbatch, hrank, rfl⟩
      · rintro ⟨batch', h⟩
        obtain rfl := Except.ok.inj (hbatch.symm.trans h.broadcast)
        obtain ⟨helem, hnumeric, ⟨hl, hl'⟩, ⟨hr, hr'⟩, hk, -, hrank, rfl⟩ := h
        exact ⟨helem, hnumeric, ⟨hl, hr⟩, ⟨hl', hr'⟩, hk, hrank, rfl⟩

end Knok
