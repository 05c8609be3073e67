import Mathlib
import Knok.ReductionRule
import Knok.Lowering.Elementwise
import Knok.Lowering.Generic

/-!
# Lowering reductions

A reduction is lowered to one `linalg.generic` over the operand's positions: the
operand is read through the identity, the result through the map that leaves the
reduced axis out.  The body combines the accumulator with the element; the
accumulator starts from a tensor filled with an initial value.

### Design decisions

* **Operations on elements** are arguments.  What a maximum starts from and
  combines with depends on the element type; it is a record (`MaxOps`) about which
  nothing is assumed.
* **Order.**  The result is a fold in row-major order of the group
  (`reduce_lowers`); for an addition it is a sum.
-/

namespace Knok.Lowering

open Arrays Control

variable {R : Type}

/-! ## The code -/

/-- There is something to reduce. -/
def ensureNonEmptyReduction (input : TensorType) (axis : AxisSpec) (opName : String) :
    Except Error Unit :=
  match axis with
  | .one axis =>
      if input.rank ≤ axis then
        .error (.msg
          s!"{opName} axis {axis} is out of bounds for rank-{input.rank} tensor {input.shape}")
      else if input.dim axis = 0 then
        .error (.msg
          s!"{opName} cannot reduce empty axis {axis} for tensor shape {input.shape}")
      else .ok ()
  | .all =>
      if elementCount input = 0 then
        .error (.msg s!"{opName} cannot reduce empty tensor shape {input.shape}")
      else .ok ()

/-- The shape of a reduced tensor. -/
def reductionOutputShape (inputShape : List ℕ) : AxisSpec → Bool → List ℕ
  | .one axis, true => inputShape.set axis 1
  | .one axis, false => inputShape.eraseIdx axis
  | .all, _ => []

/-- The result's map of a reduction. -/
def reductionOutputMap (inputRank : ℕ) : AxisSpec → Bool → AffineMap
  | .one axis, true =>
      (List.range inputRank).map fun index => if index = axis then none else some index
  | .one axis, false => ((List.range inputRank).filter (· != axis)).map some
  | .all, _ => []

/-- The iterator kinds of a reduction. -/
def reductionIteratorTypes (rank : ℕ) (axis : AxisSpec) : List IteratorType :=
  (List.range rank).map fun index =>
    if axis = .all ∨ axis = .one index then .reduction else .parallel

/-- A tensor filled with one value. -/
def fillTensor (ty : TensorType) (value : R) : Except Error (Value R) := do
  let empty ← appendTensorEmpty ty
  appendLinalgFill (.scalar ty.elem (.written value)) empty ty

/-- The region that `reduce` builds: the accumulator first. -/
def reducerBody (reducerOp : R → R → R) : List R → R → R
  | [x], acc => reducerOp acc x
  | _, acc => acc

/-- `reduce`. -/
def reduce (input : Value R) (initialValue : R) (reducerOp : R → R → R) (axis : AxisSpec)
    (keepDims : Bool) : Except Error (Value R) := do
  let ty : TensorType := ⟨input.ty.elem, reductionOutputShape input.ty.shape axis keepDims⟩
  let init ← fillTensor ty initialValue
  let rank := input.ty.rank
  appendLinalgGeneric [input] init ty rank [identityMap rank]
    (reductionOutputMap rank axis keepDims) (reductionIteratorTypes rank axis)
    (reducerBody reducerOp)

/-- What a maximum starts from and combines with. -/
structure MaxOps (R : Type) where
  zero : R
  negativeInfinity : ElementType → R
  minNumeric : ElementType → R
  ori : R → R → R
  maximumf : R → R → R
  maxsi : R → R → R

/-- `max_keep_dims`. -/
def maxKeepDims (ops : MaxOps R) (input : Value R) (axis : AxisSpec) (keepDims : Bool) :
    Except Error (Value R) := do
  ensureNonEmptyReduction input.ty axis "max"
  if input.ty.rank = 0 ∧ axis = .all then return input
  let (initialValue, reducerOp) :=
    if input.ty.elem = .bool then (ops.zero, ops.ori)
    else if input.ty.elem.isFloat then (ops.negativeInfinity input.ty.elem, ops.maximumf)
    else (ops.minNumeric input.ty.elem, ops.maxsi)
  reduce input initialValue reducerOp axis keepDims

/-- A reduced value is brought back to the shape it was reduced from. -/
def spreadReduced (reduced : Value R) (ty : TensorType) : AxisSpec → Except Error (Value R)
  | .one axis => broadcastAlongAxis reduced ty axis
  | .all => broadcast reduced ty

/-- `softmax`, with the exponential on elements. -/
def softmax [Field R] (ops : MaxOps R) (exp : R → R) (input : Value R) (axis : AxisSpec) :
    Except Error (Value R) := do
  ensureNonEmptyReduction input.ty axis "softmax"
  let max ← maxKeepDims ops input axis false
  let max ← spreadReduced max input.ty axis
  let shifted ← emitBinary (· - ·) input max
  let exponentials ← emitUnary exp shifted
  let denominator ← reduce exponentials 0 (· + ·) axis false
  let denominator ← spreadReduced denominator exponentials.ty axis
  emitBinary (· / ·) exponentials denominator

/-! ## What a reduction computes -/

section Reduce

variable {axis : AxisSpec} {shape : List ℕ}

theorem ensureNonEmptyReduction_eq_ok {input : TensorType} (hfits : axis.Fits input.shape)
    (hcount : axis.usizeCount input.shape ≠ 0) (opName : String) :
    ensureNonEmptyReduction input axis opName = .ok () := by
  cases axis with
  | all => exact if_neg hcount
  | one axis => exact (if_neg (not_le.mpr hfits)).trans (if_neg hcount)

/-- The axes that a reduction keeps. -/
theorem keptAxes_singleton (rank axis : ℕ) :
    keptAxes rank [axis] = (List.range rank).filter (· != axis) :=
  List.filter_congr fun index _ => by by_cases h : index = axis <;> simp [h]

/-- The result of a reduction is updated at the position without the axis. -/
theorem eval_reductionOutputMap {d : List ℕ} (hfits : axis.Fits shape) (hd : InBounds d shape) :
    (reductionOutputMap shape.length axis false).eval d = axis.reduce d := by
  cases axis with
  | all => rfl
  | one axis =>
      have haxis : axis < d.length := hd.length_eq ▸ hfits
      unfold AffineMap.eval reductionOutputMap
      rw [List.map_map, ← hd.length_eq, ← keptAxes_singleton]
      exact map_keptAxes_singleton haxis

theorem operandFits_reductionOutputMap (hfits : axis.Fits shape) :
    OperandFits shape (reductionOutputMap shape.length axis false, axis.reduce shape) := by
  cases axis with
  | all => exact .nil
  | one axis =>
      show List.Forall₂ _ (((List.range shape.length).filter (· != axis)).map some)
        (shape.eraseIdx axis)
      rw [← map_keptAxes_singleton hfits, keptAxes_singleton, List.forall₂_map_left_iff,
        List.forall₂_map_right_iff, List.forall₂_same]
      intro index hindex
      exact ⟨List.mem_range.mp (List.mem_of_mem_filter hindex), rfl⟩

/-- The loops of a reduction are parallel exactly where the result has an axis. -/
theorem mem_reductionOutputMap {rank index : ℕ} (hindex : index < rank) :
    some index ∈ reductionOutputMap rank axis false ↔
      (reductionIteratorTypes rank axis)[index]? = some .parallel := by
  unfold reductionIteratorTypes
  rw [List.getElem?_map, List.getElem?_range hindex, Option.map_some]
  cases axis with
  | all => simp [reductionOutputMap]
  | one axis =>
      by_cases h : axis = index
      · simp [reductionOutputMap, h]
      · have hne : index ≠ axis := fun heq => h heq.symm
        simp [reductionOutputMap, h, hne, hindex]

theorem length_reductionIteratorTypes (rank : ℕ) (axis : AxisSpec) :
    (reductionIteratorTypes rank axis).length = rank := by
  rw [reductionIteratorTypes, List.length_map, List.length_range]

/-- The loop indices that update a result position are its group. -/
theorem filter_reductionOutputMap (hfits : axis.Fits shape) (p : List ℕ) :
    (positions shape).filter ((reductionOutputMap shape.length axis false).eval · = p) =
      (positions shape).filter (axis.reduce · = p) := by
  apply List.filter_congr
  intro d hd
  rw [← eval_reductionOutputMap hfits (mem_positions.mp hd)]

theorem dimsFit_reduce (axis : AxisSpec) (h : DimsFit shape) : DimsFit (axis.reduce shape) := by
  cases axis with
  | all => exact dimsFit_nil
  | one axis => exact h.eraseIdx axis

theorem fillTensor_eq {ty : TensorType} (hfit : DimsFit ty.shape) (value : R) :
    fillTensor ty value = .ok (.tensor ty (fun _ => .written value) hfit) := by
  have hscalar : IsScalar (Value.scalar ty.elem (.written value)) ty.elem value := ⟨rfl, rfl, rfl⟩
  exact appendLinalgFill_empty hscalar hfit

/-- **A reduction folds every group**, in row-major order. -/
theorem reduce_lowers {input : Value R} {x : List ℕ → R} {initialValue : R}
    {reducerOp : R → R → R} (hfits : axis.Fits input.ty.shape) (hx : input.Holds x) :
    Lowers (reduce input initialValue reducerOp axis false)
      ⟨input.ty.elem, axis.reduce input.ty.shape⟩ fun i =>
        ((positions input.ty.shape).filter (axis.reduce · = i)).foldl
          (fun acc j => reducerOp acc (x j)) initialValue := by
  let ty : TensorType := ⟨input.ty.elem, axis.reduce input.ty.shape⟩
  have hshape : reductionOutputShape input.ty.shape axis false = axis.reduce input.ty.shape := by
    cases axis <;> rfl
  have hfit : DimsFit ty.shape := dimsFit_reduce axis input.dims_fit
  have hfill := fillTensor_eq hfit initialValue
  have hoperands : ∀ operand ∈ [(identityMap input.ty.rank, input.ty.shape),
      (reductionOutputMap input.ty.rank axis false, ty.shape)],
        OperandFits input.ty.shape operand := by
    simp only [List.forall_mem_cons, List.not_mem_nil, false_imp_iff, implies_true, and_true]
    exact ⟨operandFits_identityMap_self input.ty.shape, operandFits_reductionOutputMap hfits⟩
  have hloops : ∀ k < input.ty.shape.length,
      ∃ operand ∈ [(identityMap input.ty.rank, input.ty.shape),
        (reductionOutputMap input.ty.rank axis false, ty.shape)], some k ∈ operand.1 :=
    fun k hk => ⟨_, List.mem_cons_self, mem_identityMap.mpr hk⟩
  have hbody : ∀ p, InBounds p ty.shape →
      genericElement [input] [identityMap input.ty.rank]
        (reductionOutputMap input.ty.rank axis false) input.ty.shape (reducerBody reducerOp)
        (some initialValue) p =
      some (((positions input.ty.shape).filter (axis.reduce · = p)).foldl
        (fun acc j => reducerOp acc (x j)) initialValue) := by
    intro p _
    unfold genericElement
    rw [TensorType.rank, filter_reductionOutputMap hfits]
    apply foldl_some_eq
    intro d hd acc
    have hd := mem_positions.mp (List.mem_of_mem_filter hd)
    have hread := eval_identityMap_self hd.length_eq
    simp [hread, hx d hd, Cell.value?, reducerBody]
  obtain ⟨value, hvalue, hty, -, hholds⟩ := @exists_appendLinalgGeneric R [input]
    (.tensor ty (fun _ => .written initialValue) hfit) ty [identityMap input.ty.rank]
    (reductionOutputMap input.ty.rank axis false) _ _ _ _ rfl rfl rfl
    (length_reductionIteratorTypes input.ty.rank axis) hoperands hloops
    (fun k hk => mem_reductionOutputMap hk) hbody
  refine ⟨value, ?_, hty, hholds⟩
  unfold reduce
  rw [hshape]
  simp only [bind, Except.bind]
  exact hfill ▸ hvalue

/-- **A reduction that adds computes sums.** -/
theorem reduce_add_lowers [AddCommMonoid R] {input : Value R} {x : List ℕ → R}
    (hfits : axis.Fits input.ty.shape) (hx : input.Holds x) :
    Lowers (reduce input 0 (· + ·) axis false) ⟨input.ty.elem, axis.reduce input.ty.shape⟩
      fun i => ∑ j ∈ members input.ty.shape axis.reduce i, x j := by
  refine (reduce_lowers hfits hx).congr fun i _ => ?_
  rw [foldl_add_eq, zero_add, ← List.sum_toFinset _ ((nodup_positions _).filter _),
    List.toFinset_filter]
  simp only [decide_eq_true_eq]
  rfl

end Reduce

end Knok.Lowering
