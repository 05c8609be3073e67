import Mathlib
import Knok.Exact
import Knok.Evaluates
import Knok.Arrays.Reduction

/-!
# The type rules of reductions

A reduction combines the entries along one axis or all of them.  The positions of
its result are the positions of the operand with the axis left out; the entries that
are combined are the members of a group.
-/

namespace Knok

open Arrays Control

universe u

namespace AxisSpec

/-- What is left of a shape or a position. -/
def reduce : AxisSpec → List ℕ → List ℕ
  | .all, _ => []
  | .one axis, i => i.eraseIdx axis

/-- The shape has the axes. -/
def Fits : AxisSpec → List ℕ → Prop
  | .all, _ => True
  | .one axis, shape => axis < shape.length

/-- The number of entries that are combined. -/
def count : AxisSpec → List ℕ → ℕ
  | .all, shape => shape.prod
  | .one axis, shape => shape.getD axis 0

variable {axis : AxisSpec} {shape i j : List ℕ}

theorem inBounds_reduce (axis : AxisSpec) (hj : InBounds j shape) :
    InBounds (axis.reduce j) (axis.reduce shape) := by
  cases axis with
  | all => exact .nil
  | one axis => exact hj.eraseIdx axis

/-- The group of an entry of the result. -/
theorem members_all (hi : InBounds i (AxisSpec.all.reduce shape)) :
    members shape AxisSpec.all.reduce i = box shape := by
  obtain rfl : i = [] := List.length_eq_zero_iff.mp hi.length_eq
  exact members_const shape []

theorem le_length_of_reduce {axis : ℕ} (hfits : (AxisSpec.one axis).Fits shape)
    (hi : InBounds i ((AxisSpec.one axis).reduce shape)) : axis ≤ i.length := by
  have hfits : axis < shape.length := hfits
  rw [hi.length_eq]
  show axis ≤ (shape.eraseIdx axis).length
  rw [List.length_eraseIdx, if_pos hfits]
  omega

theorem card_members (hfits : axis.Fits shape) (hi : InBounds i (axis.reduce shape)) :
    (members shape axis.reduce i).card = axis.count shape := by
  cases axis with
  | all => rw [members_all hi, card_box, count]
  | one axis =>
      show (members shape (fun j => j.eraseIdx axis) i).card = _
      rw [members_eraseIdx hfits hi,
        Finset.card_image_of_injOn (injOn_insertIdx (le_length_of_reduce hfits hi) _),
        Finset.card_range, count]

end AxisSpec

/-! ## Reductions of tensors -/

section Tensors

variable {R : Type u} [CommRing R] {axis : AxisSpec} {i : List ℕ}

/-- The product of a tensor over an axis or over all of it. -/
def Tensor.prod (x : Tensor R) (axis : AxisSpec) (i : List ℕ) : R :=
  match axis with
  | .all => ∏ j ∈ box x.ty.shape, x.entry j
  | .one axis => ∏ k ∈ Finset.range (x.ty.dim axis), x.entry (i.insertIdx axis k)

theorem Tensor.sum_eq_members (x : Tensor R) (hfits : axis.Fits x.ty.shape)
    (hi : InBounds i (axis.reduce x.ty.shape)) :
    x.sum axis i = ∑ j ∈ members x.ty.shape axis.reduce i, x.entry j := by
  cases axis with
  | all => rw [AxisSpec.members_all hi, Tensor.sum]
  | one axis =>
      show _ = ∑ j ∈ members x.ty.shape (fun j => j.eraseIdx axis) i, x.entry j
      rw [members_eraseIdx hfits hi, Finset.sum_image (injOn_insertIdx
        (AxisSpec.le_length_of_reduce hfits hi) _)]
      rfl

theorem Tensor.prod_eq_members (x : Tensor R) (hfits : axis.Fits x.ty.shape)
    (hi : InBounds i (axis.reduce x.ty.shape)) :
    x.prod axis i = ∏ j ∈ members x.ty.shape axis.reduce i, x.entry j := by
  cases axis with
  | all => rw [AxisSpec.members_all hi, Tensor.prod]
  | one axis =>
      show _ = ∏ j ∈ members x.ty.shape (fun j => j.eraseIdx axis) i, x.entry j
      rw [members_eraseIdx hfits hi, Finset.prod_image (injOn_insertIdx
        (AxisSpec.le_length_of_reduce hfits hi) _)]
      rfl

/-- The entries of a group, in order. -/
def Tensor.group (x : Tensor R) (axis : AxisSpec) (i : List ℕ) : List R :=
  match axis with
  | .all => (positions x.ty.shape).map x.entry
  | .one axis => (List.range (x.ty.dim axis)).map fun k => x.entry (i.insertIdx axis k)

omit [CommRing R] in
theorem Tensor.mem_group {x : Tensor R} (hfits : axis.Fits x.ty.shape)
    (hi : InBounds i (axis.reduce x.ty.shape)) {a : R} :
    a ∈ x.group axis i ↔ ∃ j ∈ members x.ty.shape axis.reduce i, x.entry j = a := by
  cases axis with
  | all =>
      rw [AxisSpec.members_all hi, Tensor.group, List.mem_map]
      exact exists_congr fun j => and_congr_left' (mem_positions.trans mem_box.symm)
  | one axis =>
      show _ ↔ ∃ j ∈ members x.ty.shape (fun j => j.eraseIdx axis) i, x.entry j = a
      rw [members_eraseIdx hfits hi, Tensor.group, List.mem_map]
      constructor
      · rintro ⟨k, hk, rfl⟩
        exact ⟨_, Finset.mem_image_of_mem _ (Finset.mem_range.mpr (List.mem_range.mp hk)), rfl⟩
      · rintro ⟨j, hj, rfl⟩
        obtain ⟨k, hk, rfl⟩ := Finset.mem_image.mp hj
        exact ⟨k, List.mem_range.mpr (Finset.mem_range.mp hk), rfl⟩

end Tensors

/-! ## Type rules -/

/-- The axes that a reduction to entries of its operand's type combines. -/
def CallOp.reductionAxis : CallOp → Option AxisSpec
  | .sum axis | .prod axis | .mean axis | .var axis | .std axis | .max axis | .min axis
  | .ptp axis => some axis
  | _ => none

/-- The reduction has no value on nothing. -/
def CallOp.needsElements : CallOp → Bool
  | .mean _ | .var _ | .std _ | .max _ | .min _ | .ptp _ => true
  | _ => false

/-- The number of entries that are combined, in 64 bits. -/
def AxisSpec.usizeCount : AxisSpec → List ℕ → ℕ
  | .all, shape => usizeProduct shape
  | .one axis, shape => shape.getD axis 0

/-- What is there in 64 bits is there. -/
theorem AxisSpec.count_ne_zero {axis : AxisSpec} {shape : List ℕ} (h : axis.usizeCount shape ≠ 0) :
    axis.count shape ≠ 0 := by
  cases axis with
  | one axis => exact h
  | all =>
      intro hzero
      have hprod : shape.prod = 0 := hzero
      apply h
      show usizeProduct shape = 0
      rw [usizeProduct_eq, hprod, Nat.zero_mod]

/-- What an accepted operand of a reduction satisfies. -/
structure ReductionTypes (op : CallOp) (axis : AxisSpec) (inputTy ty : TensorType) : Prop where
  fits : axis.Fits inputTy.shape
  ty_eq : ty = ⟨inputTy.elem, axis.reduce inputTy.shape⟩
  nonempty : op.needsElements = true → axis.usizeCount inputTy.shape ≠ 0

theorem reductionOutputType_eq_ok_iff {input ty : TensorType} {axis : AxisSpec} :
    reductionOutputType input axis = .ok ty ↔
      axis.Fits input.shape ∧ ty = ⟨input.elem, axis.reduce input.shape⟩ := by
  cases axis with
  | all =>
      show Except.ok _ = Except.ok ty ↔ True ∧ _
      rw [Except.ok.injEq, true_and, eq_comm]
      rfl
  | one axis =>
      simp only [reductionOutputType, except_bind_eq_ok_iff, expectAxis_eq_ok_iff,
        except_pure_eq_ok_iff, exists_const]
      exact and_congr Iff.rfl eq_comm

theorem expectNonEmptyReduction_eq_ok_iff {input : TensorType} {axis : AxisSpec} {name : String}
    {u : Unit} : expectNonEmptyReduction input axis name = .ok u ↔
      axis.Fits input.shape ∧ axis.usizeCount input.shape ≠ 0 := by
  cases axis with
  | all =>
      simp only [expectNonEmptyReduction, failIf_eq_ok_iff, beq_eq_false_iff_ne]
      exact (and_iff_right trivial).symm
  | one axis =>
      simp only [expectNonEmptyReduction, except_bind_eq_ok_iff, expectAxis_eq_ok_iff,
        failIf_eq_ok_iff, exists_const, beq_eq_false_iff_ne]
      rfl

/-- **The type rules of reductions.** -/
theorem reductionTypes_of_inferCallResults {op : CallOp} {axis : AxisSpec} {inputTy ty : TensorType}
    (hop : op.reductionAxis = some axis) (hok : inferCallResults op [inputTy] = .ok [ty]) :
    ReductionTypes op axis inputTy ty := by
  cases op with
  | sum axis' | prod axis' =>
      cases hop
      simp only [inferCallResults, except_bind_eq_ok_iff, expectUnary_eq_ok_iff,
        except_pure_eq_ok_iff, expectNumericElement, failIf_eq_ok_iff, exists_const,
        reductionOutputType_eq_ok_iff] at hok
      obtain ⟨input, hinput, -, ty', ⟨hfits, rfl⟩, hsingle⟩ := hok
      cases hinput
      cases hsingle
      exact ⟨hfits, rfl, fun hneeds => by cases hneeds⟩
  | mean axis' | var axis' | std axis' | max axis' | min axis' | ptp axis' =>
      cases hop
      simp only [inferCallResults, except_bind_eq_ok_iff, expectUnary_eq_ok_iff,
        except_pure_eq_ok_iff, expectNumericElement, expectOrderedElement, expectFloat,
        failIf_eq_ok_iff, exists_const, reductionOutputType_eq_ok_iff,
        expectNonEmptyReduction_eq_ok_iff] at hok
      obtain ⟨input, hinput, -, hnonempty, ty', ⟨hfits, rfl⟩, hsingle⟩ := hok
      cases hinput
      cases hsingle
      exact ⟨hfits, rfl, fun _ => hnonempty.2⟩
  | _ => cases hop

/-- The type rule of `sum`. -/
theorem inferCallResults_sum_of_fits {axis : AxisSpec} {elem : ElementType} {shape : List ℕ}
    (helem : elem.isNumeric = true) (hfits : axis.Fits shape) :
    inferCallResults (.sum axis) [⟨elem, shape⟩] = .ok [⟨elem, axis.reduce shape⟩] := by
  simp only [inferCallResults, except_bind_eq_ok_iff, expectUnary_eq_ok_iff,
    except_pure_eq_ok_iff, expectNumericElement, failIf_eq_ok_iff, exists_const,
    reductionOutputType_eq_ok_iff, Bool.not_eq_false']
  exact ⟨_, rfl, helem, _, ⟨hfits, rfl⟩, rfl⟩

/-- Sums over every group. -/
theorem Evaluates.sumGroups {R : Type u} [CommRing R] {A : Arithmetic R}
    {calls : Calls (Tensor R)} {values : Env (Tensor R)} {e : Expr} {axis : AxisSpec}
    {elem : ElementType} {shape : List ℕ} {x : List ℕ → R} (helem : elem.isNumeric = true)
    (hfits : axis.Fits shape) (h : Evaluates A calls values e ⟨elem, shape⟩ x) :
    Evaluates A calls values (.call (.sum axis) [e]) ⟨elem, axis.reduce shape⟩
      fun i => ∑ j ∈ members shape axis.reduce i, x j := by
  refine h.call_unary (inferCallResults_sum_of_fits helem hfits) rfl fun t ht hentry i hi => ?_
  obtain ⟨ty, f⟩ := t
  obtain rfl : ty = ⟨elem, shape⟩ := ht
  show Tensor.sum ⟨⟨elem, shape⟩, f⟩ axis i = _
  rw [Tensor.sum_eq_members _ hfits hi]
  exact Finset.sum_congr rfl fun j hj => hentry j (mem_members.mp hj).1

/-- The type rule of `softmax`: the result has the operand's type. -/
theorem inferCallResults_softmax_iff {axis : AxisSpec} {inputTy ty : TensorType} :
    inferCallResults (.softmax axis) [inputTy] = .ok [ty] ↔
      inputTy.elem.isFloat = true ∧ inputTy.rank ≠ 0 ∧ axis.Fits inputTy.shape ∧
        axis.usizeCount inputTy.shape ≠ 0 ∧ ty = inputTy := by
  simp only [inferCallResults, except_bind_eq_ok_iff, expectUnary_eq_ok_iff,
    except_pure_eq_ok_iff, expectFloat, failIf_eq_ok_iff, exists_const,
    expectNonEmptyReduction_eq_ok_iff, Bool.not_eq_false', beq_eq_false_iff_ne]
  constructor
  · rintro ⟨input, hinput, hfloat, hrank, ⟨hfits, hcount⟩, hsingle⟩
    cases hinput
    cases hsingle
    exact ⟨hfloat, hrank, hfits, hcount, rfl⟩
  · rintro ⟨hfloat, hrank, hfits, hcount, rfl⟩
    exact ⟨ty, rfl, hfloat, hrank, ⟨hfits, hcount⟩, rfl⟩

end Knok
