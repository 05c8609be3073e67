import Mathlib
import Knok.MatmulRule
import Knok.Lowering.Generic

/-!
# Lowering a matrix product

A product of two matrices is `linalg.matmul`, of two batches of one size
`linalg.batch_matmul`, and any other a `linalg.generic` whose maps are built by
`MatmulSpec`.  The named operations are the generic one with fixed maps, and in
the cases in which the code picks them, the maps are those that `MatmulSpec`
would have built: one proof covers the three paths.
-/

namespace Knok.Lowering

open Arrays Control

/-! ## The code -/

section Emission

variable {R : Type} [CommSemiring R]

/-- A tensor of zeros. -/
def zeroInitializedTensor (ty : TensorType) : Except Error (Value R) := do
  let empty ← appendTensorEmpty ty
  appendLinalgFill (.scalar ty.elem (.written 0)) empty ty

/-- The region of a named contraction. -/
def namedContractionBody : List R → R → R
  | [u, v], acc => u * v + acc
  | _, acc => acc

/-- The region that `generic_matmul` builds. -/
def genericMatmulBody : List R → R → R
  | [u, v], acc => acc + u * v
  | _, acc => acc

/-- `linalg.matmul`. -/
def appendLinalgMatmul (lhs rhs init : Value R) (ty : TensorType) : Except Error (Value R) := do
  verify (lhs.ty.elem = ty.elem ∧ rhs.ty.elem = ty.elem) "linalg.matmul element types differ"
  appendLinalgGeneric [lhs, rhs] init ty 3 [[some 0, some 2], [some 2, some 1]] [some 0, some 1]
    [.parallel, .parallel, .reduction] namedContractionBody

/-- `linalg.batch_matmul`. -/
def appendLinalgBatchMatmul (lhs rhs init : Value R) (ty : TensorType) :
    Except Error (Value R) := do
  verify (lhs.ty.elem = ty.elem ∧ rhs.ty.elem = ty.elem) "linalg.batch_matmul element types differ"
  appendLinalgGeneric [lhs, rhs] init ty 4 [[some 0, some 1, some 3], [some 0, some 3, some 2]]
    [some 0, some 1, some 2] [.parallel, .parallel, .parallel, .reduction] namedContractionBody

end Emission

/-- The operand and result shapes of a product. -/
structure MatmulSpec where
  lhsShape : List ℕ
  rhsShape : List ℕ
  outputShape : List ℕ

/-- The shapes, checked and joined. -/
def MatmulSpec.new (lhs rhs : TensorType) : Except Error MatmulSpec := do
  failIf (lhs.rank == 0 || rhs.rank == 0) "matmul expects operands with rank at least 1"
  failIf (matmulLhsK lhs != matmulRhsK rhs)
    s!"matmul inner dimensions differ: {matmulLhsK lhs} vs {matmulRhsK rhs}"
  let batch ← broadcastShape (matmulBatch lhs) (matmulBatch rhs)
  return ⟨lhs.shape, rhs.shape, batch ++ matmulMatrixDims lhs rhs⟩

/-- The map entries of an operand's batch axes: zero where a unit dimension has
been broadcast. -/
def batchIndices (inputBatch outputBatch : List ℕ) : AffineMap :=
  (List.range inputBatch.length).map fun index =>
    let outputAxis := outputBatch.length - inputBatch.length + index
    if inputBatch.getD index 0 = 1 ∧ outputBatch.getD outputAxis 0 ≠ 1 then none
    else some outputAxis

namespace MatmulSpec

variable (spec : MatmulSpec)

/-- The number of batch axes of the result. -/
def outputBatchRank : ℕ :=
  spec.outputShape.length -
    ((if spec.lhsShape.length ≠ 1 then 1 else 0) + if spec.rhsShape.length ≠ 1 then 1 else 0)

/-- The map of the left operand. -/
def lhsIndices (reductionDim : ℕ) : AffineMap :=
  if spec.lhsShape.length = 1 then [some reductionDim]
  else batchIndices (spec.lhsShape.take (spec.lhsShape.length - 2))
      (spec.outputShape.take spec.outputBatchRank) ++
    [some spec.outputBatchRank, some reductionDim]

/-- The map of the right operand. -/
def rhsIndices (reductionDim : ℕ) : AffineMap :=
  if spec.rhsShape.length = 1 then [some reductionDim]
  else
    let nAxis := spec.outputBatchRank + if spec.lhsShape.length ≠ 1 then 1 else 0
    batchIndices (spec.rhsShape.take (spec.rhsShape.length - 2))
      (spec.outputShape.take spec.outputBatchRank) ++ [some reductionDim, some nAxis]

end MatmulSpec

section Emission

variable {R : Type} [CommSemiring R]

/-- The path through `linalg.generic`. -/
def genericMatmul (lhs rhs : Value R) : Except Error (Value R) := do
  let spec ← MatmulSpec.new lhs.ty rhs.ty
  let ty : TensorType := ⟨lhs.ty.elem, spec.outputShape⟩
  let init ← zeroInitializedTensor ty
  let outputRank := ty.rank
  appendLinalgGeneric [lhs, rhs] init ty (outputRank + 1)
    [spec.lhsIndices outputRank, spec.rhsIndices outputRank] (identityMap outputRank)
    (List.replicate outputRank .parallel ++ [.reduction]) genericMatmulBody

/-- The path through `linalg.batch_matmul`. -/
def batchMatmul (lhs rhs : Value R) : Except Error (Value R) := do
  let ty : TensorType := ⟨lhs.ty.elem, [lhs.ty.dim 0, lhs.ty.dim 1, rhs.ty.dim 2]⟩
  let init ← zeroInitializedTensor ty
  appendLinalgBatchMatmul lhs rhs init ty

/-- A matrix product. -/
def matmul (lhs rhs : Value R) : Except Error (Value R) :=
  if lhs.ty.rank = 3 ∧ rhs.ty.rank = 3 ∧ lhs.ty.dim 0 = rhs.ty.dim 0 then batchMatmul lhs rhs
  else if lhs.ty.rank ≠ 2 ∨ rhs.ty.rank ≠ 2 then genericMatmul lhs rhs
  else do
    let ty : TensorType := ⟨lhs.ty.elem, [lhs.ty.dim 0, rhs.ty.dim 1]⟩
    let init ← zeroInitializedTensor ty
    appendLinalgMatmul lhs rhs init ty

end Emission

/-! ## The maps -/

theorem eval_append (m m' : AffineMap) (d : List ℕ) :
    AffineMap.eval (m ++ m') d = m.eval d ++ m'.eval d := List.map_append

/-- The batch part of an operand's map fits the loops. -/
theorem operandFits_batchIndices {small batch : List ℕ} (h : BroadcastsTo small batch)
    (rest : List ℕ) : OperandFits (batch ++ rest) (batchIndices small batch, small) := by
  obtain ⟨hle, hdim⟩ := broadcastsTo_iff_getD.mp h
  unfold OperandFits batchIndices
  conv => rhs; rw [← map_getD_range small]
  rw [List.forall₂_map_left_iff, List.forall₂_map_right_iff, List.forall₂_same]
  intro index hindex
  have hlt := List.mem_range.mp hindex
  dsimp only
  split_ifs with hunit
  · rw [Option.elim_none, hunit.1]
    exact Nat.zero_lt_one
  · rw [Option.elim_some, List.length_append, List.getD_append _ _ _ _ (by omega)]
    refine ⟨by omega, ?_⟩
    rcases hdim index hlt with heq | hone
    · exact heq.symm
    · by_contra hne
      exact hunit ⟨hone, fun h => hne (h.trans hone.symm)⟩

/-- The batch part of an operand's map reads where broadcasting does. -/
theorem eval_batchIndices {small batch j : List ℕ} (h : BroadcastsTo small batch)
    (hj : InBounds j batch) (rest : List ℕ) :
    (batchIndices small batch).eval (j ++ rest) = broadcastIndex small j := by
  have hlen := hj.length_eq
  have hle : small.length ≤ j.length := hlen ▸ h.1
  have hrange := map_getD_range (broadcastIndex small j)
  rw [length_broadcastIndex hle] at hrange
  rw [← hrange]
  unfold AffineMap.eval batchIndices
  rw [List.map_map]
  refine List.map_congr_left fun index hindex => ?_
  have hlt := List.mem_range.mp hindex
  rw [getD_broadcastIndex hle hlt, Function.comp_apply, hlen]
  dsimp only
  have hcoord := hj.getD_lt (show batch.length - small.length + index < batch.length by
    have := h.1; omega)
  by_cases hone : small.getD index 0 = 1
  · rw [if_pos hone]
    split_ifs with hunit
    · rfl
    · have : batch.getD (batch.length - small.length + index) 0 = 1 := by
        by_contra hne
        exact hunit ⟨hone, hne⟩
      rw [Option.elim_some, List.getD_append _ _ _ _ (by have := h.1; omega)]
      omega
  · rw [if_neg hone, if_neg fun h => hone h.1, Option.elim_some,
      List.getD_append _ _ _ _ (by have := h.1; omega)]

section Maps

variable {batch lhs rhs : List ℕ}

theorem outputBatchRank_eq :
    (⟨lhs, rhs, matmulShape batch lhs rhs⟩ : MatmulSpec).outputBatchRank = batch.length := by
  unfold MatmulSpec.outputBatchRank
  simp only [length_matmulShape, matrixAxes, ne_eq, ite_not]
  split_ifs <;> omega

theorem take_outputBatchRank : (matmulShape batch lhs rhs).take batch.length = batch := by
  rw [matmulShape, List.take_left' rfl]

/-- The loop over the contracted dimension. -/
theorem bound_reduction (shape : List ℕ) (dim : ℕ) :
    shape.length < (shape ++ [dim]).length ∧ (shape ++ [dim]).getD shape.length 0 = dim := by
  refine ⟨by simp, ?_⟩
  rw [List.getD_append_right _ _ _ _ le_rfl, Nat.sub_self]
  rfl

/-- The left operand's map fits the loops. -/
theorem operandFits_lhsIndices (hpos : lhs.length ≠ 0)
    (hbatch : BroadcastsTo (batchShape lhs) batch) :
    OperandFits (matmulShape batch lhs rhs ++ [lhs.getD (lhs.length - 1) 0])
      ((⟨lhs, rhs, matmulShape batch lhs rhs⟩ : MatmulSpec).lhsIndices
        (matmulShape batch lhs rhs).length, lhs) := by
  have hk := bound_reduction (matmulShape batch lhs rhs) (lhs.getD (lhs.length - 1) 0)
  unfold MatmulSpec.lhsIndices
  dsimp only
  rw [outputBatchRank_eq, take_outputBatchRank]
  split_ifs with hvector
  · obtain ⟨dim, rfl⟩ := List.length_eq_one_iff.mp hvector
    exact .cons hk .nil
  · conv => arg 2; arg 2; rw [eq_batchShape_append (show 2 ≤ lhs.length by omega)]
    have hrow : batch.length < (matmulShape batch lhs rhs).length ∧
        (matmulShape batch lhs rhs).getD batch.length 0 = lhs.getD (lhs.length - 2) 0 := by
      constructor
      · rw [length_matmulShape, matrixAxes, if_neg hvector]
        omega
      · rw [matmulShape, if_neg hvector, List.getD_append_right _ _ _ _ le_rfl, Nat.sub_self]
        rfl
    refine List.rel_append ?_ (.cons ?_ (.cons hk .nil))
    · rw [matmulShape, List.append_assoc]
      exact operandFits_batchIndices hbatch _
    · refine ⟨by rw [List.length_append]; omega, ?_⟩
      rw [List.getD_append _ _ _ _ hrow.1, hrow.2]

/-- The right operand's map fits the loops. -/
theorem operandFits_rhsIndices (hpos : rhs.length ≠ 0)
    (hbatch : BroadcastsTo (batchShape rhs) batch) {dim : ℕ}
    (hdim : dim = if rhs.length = 1 then rhs.getD 0 0 else rhs.getD (rhs.length - 2) 0) :
    OperandFits (matmulShape batch lhs rhs ++ [dim])
      ((⟨lhs, rhs, matmulShape batch lhs rhs⟩ : MatmulSpec).rhsIndices
        (matmulShape batch lhs rhs).length, rhs) := by
  have hk := bound_reduction (matmulShape batch lhs rhs) dim
  unfold MatmulSpec.rhsIndices
  dsimp only
  rw [outputBatchRank_eq, take_outputBatchRank]
  by_cases hvector : rhs.length = 1
  · obtain ⟨dim', rfl⟩ := List.length_eq_one_iff.mp hvector
    subst hdim
    exact .cons hk .nil
  · rw [if_neg hvector] at hdim ⊢
    subst hdim
    conv => arg 2; arg 2; rw [eq_batchShape_append (show 2 ≤ rhs.length by omega)]
    have hcol : batch.length + (if lhs.length ≠ 1 then 1 else 0) <
          (matmulShape batch lhs rhs).length ∧
        (matmulShape batch lhs rhs).getD
          (batch.length + (if lhs.length ≠ 1 then 1 else 0)) 0 =
            rhs.getD (rhs.length - 1) 0 := by
      constructor
      · rw [length_matmulShape, matrixAxes, matrixAxes, if_neg hvector]
        simp only [ne_eq, ite_not]
        split_ifs <;> omega
      · rw [matmulShape, if_neg hvector]
        simp only [ne_eq, ite_not]
        rw [List.getD_append_right _ _ _ _ (Nat.le_add_right _ _), Nat.add_sub_cancel_left]
        split_ifs <;> rfl
    refine List.rel_append ?_ (.cons hk (.cons ?_ .nil))
    · rw [matmulShape, List.append_assoc]
      exact operandFits_batchIndices hbatch _
    · refine ⟨by rw [List.length_append]; omega, ?_⟩
      rw [List.getD_append _ _ _ _ hcol.1, hcol.2]

variable {i : List ℕ}

/-- The left operand's map reads what the product reads. -/
theorem eval_lhsIndices (hbatch : BroadcastsTo (batchShape lhs) batch)
    (hi : InBounds i (matmulShape batch lhs rhs)) (k : ℕ) :
    ((⟨lhs, rhs, matmulShape batch lhs rhs⟩ : MatmulSpec).lhsIndices
      (matmulShape batch lhs rhs).length).eval (i ++ [k]) = matmulLhsPosition lhs rhs i k := by
  have hk : (i ++ [k]).getD (matmulShape batch lhs rhs).length 0 = k := by
    rw [← hi.length_eq, List.getD_append_right _ _ _ _ le_rfl, Nat.sub_self]
    rfl
  unfold MatmulSpec.lhsIndices matmulLhsPosition
  dsimp only
  rw [outputBatchRank_eq, take_outputBatchRank, batchRank_eq hi]
  split_ifs with hvector
  · exact congrArg (fun n => [n]) hk
  · have hrow : batch.length < i.length := by
      rw [hi.length_eq, length_matmulShape, matrixAxes, if_neg hvector]
      omega
    rw [eval_append]
    congr 1
    · conv_lhs => rw [← List.take_append_drop batch.length i, List.append_assoc]
      exact eval_batchIndices hbatch (inBounds_take_batch hi) _
    · change [(i ++ [k]).getD batch.length 0, _] = _
      rw [List.getD_append _ _ _ _ hrow]
      exact congrArg (fun n => [_, n]) hk

/-- The right operand's map reads what the product reads. -/
theorem eval_rhsIndices (hbatch : BroadcastsTo (batchShape rhs) batch)
    (hi : InBounds i (matmulShape batch lhs rhs)) (k : ℕ) :
    ((⟨lhs, rhs, matmulShape batch lhs rhs⟩ : MatmulSpec).rhsIndices
      (matmulShape batch lhs rhs).length).eval (i ++ [k]) = matmulRhsPosition lhs rhs i k := by
  have hk : (i ++ [k]).getD (matmulShape batch lhs rhs).length 0 = k := by
    rw [← hi.length_eq, List.getD_append_right _ _ _ _ le_rfl, Nat.sub_self]
    rfl
  unfold MatmulSpec.rhsIndices matmulRhsPosition
  dsimp only
  rw [outputBatchRank_eq, take_outputBatchRank, batchRank_eq hi]
  by_cases hvector : rhs.length = 1
  · rw [if_pos hvector, if_pos hvector]
    exact congrArg (fun n => [n]) hk
  · rw [if_neg hvector, if_neg hvector]
    have hcol : batch.length + (if lhs.length ≠ 1 then 1 else 0) = i.length - 1 ∧
        i.length ≠ 0 := by
      rw [hi.length_eq, length_matmulShape, matrixAxes, matrixAxes, if_neg hvector]
      simp only [ne_eq, ite_not]
      split_ifs <;> simp
    rw [eval_append]
    congr 1
    · conv_lhs => rw [← List.take_append_drop batch.length i, List.append_assoc]
      exact eval_batchIndices hbatch (inBounds_take_batch hi) _
    · rw [hcol.1]
      change [_, (i ++ [k]).getD (i.length - 1) 0] = _
      rw [List.getD_append _ _ _ _ (by omega)]
      exact congrArg (fun n => [n, _]) hk

end Maps

/-! ## The product -/

/-- The specification that `generic_matmul` builds. -/
theorem matmulSpec_new {lhsTy rhsTy ty : TensorType} {batch : List ℕ}
    (h : MatmulTypes lhsTy rhsTy ty batch) :
    MatmulSpec.new lhsTy rhsTy =
      .ok ⟨lhsTy.shape, rhsTy.shape, matmulShape batch lhsTy.shape rhsTy.shape⟩ := by
  have hbatch : broadcastShape (matmulBatch lhsTy) (matmulBatch rhsTy) = .ok batch := by
    rw [broadcastShape_eq_ok_iff, matmulBatch_eq, matmulBatch_eq]
    exact h.broadcast
  unfold MatmulSpec.new
  simp only [except_bind_eq_ok_iff, failIf_eq_ok_iff, hbatch, Except.ok.injEq, exists_eq_left',
    except_pure_eq_ok_iff, exists_const, Bool.or_eq_false_iff, beq_eq_false_iff_ne,
    bne_eq_false_iff_eq]
  exact ⟨⟨h.lhs_rank.1, h.rhs_rank.1⟩, h.contracted, rfl⟩

/-- The matrices of `linalg.matmul` have the maps of the general case. -/
theorem named_maps_of_rank_two {lhsTy rhsTy ty : TensorType} {batch : List ℕ}
    (hl : lhsTy.rank = 2) (hr : rhsTy.rank = 2)
    (h : MatmulTypes lhsTy rhsTy ty batch) :
    ty = ⟨lhsTy.elem, [lhsTy.dim 0, rhsTy.dim 1]⟩ ∧
      (⟨lhsTy.shape, rhsTy.shape, ty.shape⟩ : MatmulSpec).lhsIndices ty.rank =
        [some 0, some 2] ∧
      (⟨lhsTy.shape, rhsTy.shape, ty.shape⟩ : MatmulSpec).rhsIndices ty.rank =
        [some 2, some 1] := by
  obtain ⟨hb, hty⟩ := And.intro h.broadcast h.ty_eq
  obtain ⟨m, k, hlhs⟩ := List.length_eq_two.mp hl
  obtain ⟨k', n, hrhs⟩ := List.length_eq_two.mp hr
  rw [hlhs, hrhs] at hb hty
  obtain rfl := Except.ok.inj hb
  have hty' : ty = ⟨lhsTy.elem, [m, n]⟩ := hty
  simp [hty', hlhs, hrhs, TensorType.dim, MatmulSpec.lhsIndices, MatmulSpec.rhsIndices,
    MatmulSpec.outputBatchRank, batchIndices, TensorType.rank]

/-- Batches of `linalg.batch_matmul` have the maps of the general case. -/
theorem named_maps_of_rank_three {lhsTy rhsTy ty : TensorType} {batch : List ℕ}
    (hl : lhsTy.rank = 3) (hr : rhsTy.rank = 3)
    (hdim : lhsTy.dim 0 = rhsTy.dim 0) (h : MatmulTypes lhsTy rhsTy ty batch) :
    ty = ⟨lhsTy.elem, [lhsTy.dim 0, lhsTy.dim 1, rhsTy.dim 2]⟩ ∧
      (⟨lhsTy.shape, rhsTy.shape, ty.shape⟩ : MatmulSpec).lhsIndices ty.rank =
        [some 0, some 1, some 3] ∧
      (⟨lhsTy.shape, rhsTy.shape, ty.shape⟩ : MatmulSpec).rhsIndices ty.rank =
        [some 0, some 3, some 2] := by
  obtain ⟨hb, hty⟩ := And.intro h.broadcast h.ty_eq
  obtain ⟨d, m, k, hlhs⟩ := List.length_eq_three.mp hl
  obtain ⟨d', k', n, hrhs⟩ := List.length_eq_three.mp hr
  rw [TensorType.dim, TensorType.dim, hlhs, hrhs] at hdim
  obtain rfl : d = d' := hdim
  rw [hlhs, hrhs] at hb hty
  have hbatch : batch = [d] := by
    have := broadcastShapeSlices_eq_right_iff.mpr (broadcastsTo_refl [d])
    exact Except.ok.inj (hb.symm.trans this)
  subst hbatch
  have hty' : ty = ⟨lhsTy.elem, [d, m, n]⟩ := hty
  simp [hty', hlhs, hrhs, TensorType.dim, MatmulSpec.lhsIndices, MatmulSpec.rhsIndices,
    MatmulSpec.outputBatchRank, batchIndices, TensorType.rank]

section Spec

variable {R : Type} [CommSemiring R] {lhs rhs : Value R} {a b : List ℕ → R} {ty : TensorType}
  {batch : List ℕ}

theorem exists_zeroInitializedTensor (hfit : DimsFit ty.shape) :
    ∃ init : Value R, zeroInitializedTensor ty = .ok init ∧ init.kind = .tensor ∧ init.ty = ty ∧
      init.Holds fun _ => 0 := by
  have hzero : IsScalar (R := R) (.scalar ty.elem (.written 0)) ty.elem 0 := ⟨rfl, rfl, rfl⟩
  exact ⟨_, appendLinalgFill_empty hzero hfit, rfl, rfl, fun _ _ => rfl⟩

/-- The dimensions of a product are its operands'. -/
theorem dimsFit_of_matmulTypes {lhsTy rhsTy : TensorType} (h : MatmulTypes lhsTy rhsTy ty batch)
    (hl : DimsFit lhsTy.shape) (hr : DimsFit rhsTy.shape) : DimsFit ty.shape := by
  have hbatch : DimsFit batch := dimsFit_of_broadcastShapeSlices h.broadcast
    (hl.subset (List.take_subset _ _)) (hr.subset (List.take_subset _ _))
  have hrow := hl.getD_lt (lhsTy.shape.length - 2)
  have hcol := hr.getD_lt (rhsTy.shape.length - 1)
  rw [h.ty_eq]
  intro dim hdim
  rcases List.mem_append.mp hdim with hmem | hmem
  · exact hbatch dim hmem
  · split_ifs at hmem <;> simp at hmem <;> rcases hmem with rfl | rfl <;> assumption

/-- The loop nest that every path emits. -/
theorem exists_contraction (h : MatmulTypes lhs.ty rhs.ty ty batch) (ha : lhs.Holds a)
    (hb : rhs.Holds b) {body : List R → R → R} (hbody : ∀ u v acc, body [u, v] acc = acc + u * v)
    {init : Value R} (hinit : init.Holds fun _ => 0) (hkind : init.kind = .tensor)
    (hty : init.ty = ty) :
    ∃ value, appendLinalgGeneric [lhs, rhs] init ty (ty.rank + 1)
        [(⟨lhs.ty.shape, rhs.ty.shape, ty.shape⟩ : MatmulSpec).lhsIndices ty.rank,
          (⟨lhs.ty.shape, rhs.ty.shape, ty.shape⟩ : MatmulSpec).rhsIndices ty.rank]
        (identityMap ty.rank) (List.replicate ty.rank .parallel ++ [.reduction]) body =
          .ok value ∧ value.ty = ty ∧
      value.Holds (Arrays.matmul lhs.ty.shape rhs.ty.shape a b) := by
  have hshape : ty.shape = matmulShape batch lhs.ty.shape rhs.ty.shape := by rw [h.ty_eq]
  obtain ⟨hl, hr⟩ := broadcastsTo_of_broadcastShapeSlices h.broadcast
  have hdim : lhs.ty.shape.getD (lhs.ty.shape.length - 1) 0 =
      if rhs.ty.shape.length = 1 then rhs.ty.shape.getD 0 0
      else rhs.ty.shape.getD (rhs.ty.shape.length - 2) 0 := by
    rw [← matmulLhsK_eq, h.contracted, matmulRhsK_eq]
  have hlhs := @operandFits_lhsIndices batch lhs.ty.shape rhs.ty.shape h.lhs_rank.1 hl
  have hrhs := @operandFits_rhsIndices batch lhs.ty.shape rhs.ty.shape h.rhs_rank.1 hr _ hdim
  rw [← hshape] at hlhs hrhs
  have hreduction : some ty.rank ∈
      (⟨lhs.ty.shape, rhs.ty.shape, ty.shape⟩ : MatmulSpec).lhsIndices ty.rank := by
    unfold MatmulSpec.lhsIndices
    split_ifs <;> simp
  obtain ⟨value, hvalue, hvty, hholds⟩ :=
    appendLinalgGeneric_contraction ha hb hinit hkind hty hlhs hrhs hreduction hbody
  refine ⟨value, hvalue, hvty, fun i hi => ?_⟩
  have hi' : InBounds i (matmulShape batch lhs.ty.shape rhs.ty.shape) := by
    rwa [hvty, hshape] at hi
  rw [hholds i hi, Arrays.matmul]
  congr 1
  refine Finset.sum_congr rfl fun k _ => ?_
  rw [hshape, eval_lhsIndices hl hi', eval_rhsIndices hr hi']

/-- **Every path of the lowering computes NumPy's matrix product**: it succeeds,
with the type rule's type, and holds the product; the maps that `MatmulSpec`
builds read inside the operands. -/
theorem matmul_lowers (lhs rhs : Value R) (a b : List ℕ → R) (ty : TensorType)
    (hty : matmulResultType lhs.ty rhs.ty = .ok ty) (ha : lhs.Holds a) (hb : rhs.Holds b) :
    (∃ value, matmul lhs rhs = .ok value ∧ value.ty = ty ∧
      value.Holds (Arrays.matmul lhs.ty.shape rhs.ty.shape a b)) ∧
    ∃ spec, MatmulSpec.new lhs.ty rhs.ty = .ok spec ∧ spec.outputShape = ty.shape ∧
      ∀ i, InBounds i ty.shape → ∀ k < matmulLhsK lhs.ty,
        InBounds ((spec.lhsIndices ty.rank).eval (i ++ [k])) lhs.ty.shape ∧
          InBounds ((spec.rhsIndices ty.rank).eval (i ++ [k])) rhs.ty.shape := by
  obtain ⟨batch, h⟩ := matmulResultType_eq_ok_iff.mp hty
  obtain ⟨init, hnew, hkind, hinit, hzero⟩ :=
    exists_zeroInitializedTensor (R := R) (dimsFit_of_matmulTypes h lhs.dims_fit rhs.dims_fit)
  have helem : lhs.ty.elem = ty.elem ∧ rhs.ty.elem = ty.elem := by
    rw [h.ty_eq, h.elem]
    exact ⟨rfl, rfl⟩
  have hgenericBody : ∀ u v acc : R, genericMatmulBody [u, v] acc = acc + u * v :=
    fun _ _ _ => rfl
  have hnamedBody : ∀ u v acc : R, namedContractionBody [u, v] acc = acc + u * v :=
    fun _ _ _ => add_comm _ _
  refine ⟨?_, _, matmulSpec_new h, by rw [h.ty_eq], fun i hi k hk => ?_⟩
  · unfold matmul
    split_ifs with hbatch hgeneric
    · obtain ⟨hl, hr, hdim⟩ := hbatch
      obtain ⟨hty', hlhs, hrhs⟩ := named_maps_of_rank_three hl hr hdim h
      obtain ⟨value, hvalue, hspec⟩ := exists_contraction h ha hb hnamedBody hzero hkind hinit
      rw [hlhs, hrhs, show ty.rank = 3 by rw [hty']; rfl] at hvalue
      refine ⟨value, ?_, hspec⟩
      unfold batchMatmul appendLinalgBatchMatmul
      rw [← hty']
      simp only [hnew, verify_of helem, bind, Except.bind]
      exact hvalue
    · obtain ⟨value, hvalue, hspec⟩ := exists_contraction h ha hb hgenericBody hzero hkind hinit
      refine ⟨value, ?_, hspec⟩
      unfold genericMatmul
      simp only [matmulSpec_new h, bind, Except.bind]
      rw [← h.ty_eq]
      simp only [hnew]
      rw [h.ty_eq] at hvalue ⊢
      exact hvalue
    · rw [not_or, not_not, not_not] at hgeneric
      obtain ⟨hty', hlhs, hrhs⟩ := named_maps_of_rank_two hgeneric.1 hgeneric.2 h
      obtain ⟨value, hvalue, hspec⟩ := exists_contraction h ha hb hnamedBody hzero hkind hinit
      rw [hlhs, hrhs, show ty.rank = 2 by rw [hty']; rfl] at hvalue
      refine ⟨value, ?_, hspec⟩
      unfold appendLinalgMatmul
      rw [← hty']
      simp only [hnew, verify_of helem, bind, Except.bind]
      exact hvalue
  · obtain ⟨hl, hr⟩ := broadcastsTo_of_broadcastShapeSlices h.broadcast
    have hk' : k < if rhs.ty.shape.length = 1 then rhs.ty.shape.getD 0 0
        else rhs.ty.shape.getD (rhs.ty.shape.length - 2) 0 := by
      rwa [h.contracted, matmulRhsK_eq] at hk
    rw [matmulLhsK_eq] at hk
    have hshape : ty.shape = matmulShape batch lhs.ty.shape rhs.ty.shape := by rw [h.ty_eq]
    have hrank : ty.rank = (matmulShape batch lhs.ty.shape rhs.ty.shape).length :=
      congrArg List.length hshape
    rw [hshape] at hi
    rw [hrank, eval_lhsIndices hl hi, eval_rhsIndices hr hi]
    exact ⟨inBounds_matmulLhsPosition hl h.lhs_rank.1 hi hk,
      inBounds_matmulRhsPosition hr h.rhs_rank.1 hi hk'⟩

/-- A vector times a batch of matrices. -/
theorem matmul_lowers_vector :
    ∃ value, matmul (.tensor ⟨.i64, [2]⟩ fun i => .written (i.getD 0 0))
        (.tensor ⟨.i64, [3, 2, 1]⟩ fun i => .written (i.getD 1 0)) = .ok value ∧
      value.ty = ⟨.i64, [3, 1]⟩ ∧ value.Holds (Arrays.matmul [2] [3, 2, 1]
        (fun i => i.getD 0 0) fun i => i.getD 1 0) :=
  (matmul_lowers (.tensor ⟨.i64, [2]⟩ fun i => .written (i.getD 0 0))
    (.tensor ⟨.i64, [3, 2, 1]⟩ fun i => .written (i.getD 1 0)) _ _ _ rfl (fun _ _ => rfl)
    fun _ _ => rfl).1

end Spec

end Knok.Lowering
