import Mathlib
import Knok.Arrays.Softmax
import Knok.Lowering.Softmax
import Knok.Autograd.Adjoint.Reduction

/-!
# Softmax and its gradient

The lowered value is compared with softmax, the emitted gradient with the transposed
derivative, which is read off dual numbers.  The rule weights the incoming gradient
with the output, sums it over the group and spreads the sum again; this is the
transposed Jacobian for every axis and every shape.  The lowered value is softmax
unless the broadcast that spreads a reduced value takes it for a single element.
-/

namespace Knok.Autograd

open Arrays Control

universe u

/-- The rule of `softmax` emits the transposed derivative, over every field and for
every function as the exponential. -/
def SoftmaxGradientExact (axis : AxisSpec) (inputTy : TensorType) : Prop :=
  ∀ (K : Type u) [Field K] (exp : K → K) (A : Arithmetic K)
    (env : String → Option TensorType) (node : Node) (input : Expr), node.ty = inputTy →
    exprTy env input = .ok inputTy →
    ∀ (calls : Calls (Tensor K)) (values : Env (Tensor K)) (grad : Expr) (g x : List ℕ → K),
      Evaluates A calls values grad inputTy g →
      Evaluates A calls values input inputTy x →
      Evaluates A calls values (.var node.name) inputTy
        (softmax exp inputTy.shape axis.reduce x) →
      ∃ (gx : Expr) (a : List ℕ → K),
        reverseCall env node (.softmax axis) [input] grad = .ok [(input, gx)] ∧
        Evaluates A calls values gx inputTy a ∧
        ∀ v, inner inputTy.shape (softmaxDerivative exp inputTy.shape axis.reduce x v) g =
          inner inputTy.shape v a

section Rule

variable {K : Type u} [Field K] {A : Arithmetic K} {env : String → Option TensorType} {node : Node}
  {axis : AxisSpec} {elem : ElementType} {shape : List ℕ} {input grad : Expr}
  {calls : Calls (Tensor K)} {values : Env (Tensor K)} {g y : List ℕ → K}

/-- What the rule emits: the output times the distance of the gradient from its
weighted mean in the group. -/
theorem exists_softmaxContribution (hfits : axis.Fits shape) (hfloat : elem.isFloat = true)
    (hnode : node.ty = ⟨elem, shape⟩) (hinput : exprTy env input = .ok ⟨elem, shape⟩)
    (hg : Evaluates A calls values grad ⟨elem, shape⟩ g)
    (hy : Evaluates A calls values (.var node.name) ⟨elem, shape⟩ y) :
    ∃ gx : Expr, reverseCall env node (.softmax axis) [input] grad = .ok [(input, gx)] ∧
      Evaluates A calls values gx ⟨elem, shape⟩ fun j =>
        y j * (g j - ∑ i ∈ members shape axis.reduce (axis.reduce j), g i * y i) := by
  have hnumeric := ElementType.isNumeric_of_isFloat hfloat
  have hsummed := (hg.mul hnumeric hy).sumGroups hnumeric hfits
  have hspread := evaluates_expandReductionGrad hfits hsummed
  refine ⟨_, ?_, hy.mul hnumeric (hg.sub hnumeric hspread)⟩
  have hreduced : singleCallType (.sum axis) [⟨elem, shape⟩] = .ok ⟨elem, axis.reduce shape⟩ := by
    unfold singleCallType
    rw [inferCallResults_sum_of_fits hnumeric hfits]
    rfl
  simp only [reverseCall, callStopsGradient, hnode, hfloat, Bool.not_true]
  show (exprTy env input).bind _ = _
  rw [hinput]
  show (singleCallType (.sum axis) [⟨elem, shape⟩]).bind _ = _
  rw [hreduced]
  rfl

end Rule

/-- **The rule of `softmax` is the transposed derivative**, for every accepted axis. -/
theorem softmaxGradientExact {axis : AxisSpec} {inputTy ty : TensorType}
    (hok : inferCallResults (.softmax axis) [inputTy] = .ok [ty]) :
    SoftmaxGradientExact.{u} axis inputTy := by
  obtain ⟨hfloat, -, hfits, -, -⟩ := inferCallResults_softmax_iff.mp hok
  intro K _ exp A env node input hnode hinput calls values grad g x hg _ hy
  obtain ⟨elem, shape⟩ := inputTy
  obtain ⟨gx, hcall, hgx⟩ := exists_softmaxContribution hfits hfloat hnode hinput hg hy
  refine ⟨gx, _, hcall, hgx, fun v => ?_⟩
  exact inner_softmaxDerivative (fun j hj => axis.inBounds_reduce hj) x v g

/-- Softmax is lowered as it is defined and differentiated as it is defined. -/
def SoftmaxExact (axis : AxisSpec) (inputTy : TensorType) : Prop :=
  Lowering.SoftmaxLowersTo inputTy axis ∧ SoftmaxGradientExact.{u} axis inputTy

/-- **Softmax and its gradient are exact unless the tensor with the axis left out is
taken for a single element**: when the product of the other dimensions is not one but
wraps to one.  (No value has a type that MLIR cannot parse.) -/
theorem softmaxExact_iff {axis : AxisSpec} {inputTy ty : TensorType}
    (hok : inferCallResults (.softmax axis) [inputTy] = .ok [ty]) :
    SoftmaxExact.{u} axis inputTy ↔
      (Lowering.DimsFit inputTy.shape → inputTy.shape.prod = 0 ∨
        (usizeProduct (axis.reduce inputTy.shape) = 1 →
          (axis.reduce inputTy.shape).prod = 1)) := by
  obtain ⟨-, hrank, hfits, -, -⟩ := inferCallResults_softmax_iff.mp hok
  rw [SoftmaxExact, and_iff_left (softmaxGradientExact hok), Lowering.softmaxLowersTo_iff hok]
  refine imp_congr_right fun _ => ?_
  constructor
  · rintro (hsame | hexact)
    · exact absurd hsame (Lowering.reducedType_ne hrank hfits)
    · exact hexact
  · exact .inr

theorem softmaxExact_iff_rows :
    SoftmaxExact.{0} (.one 1) ⟨.f32, [2, 3]⟩ ↔
      (Lowering.DimsFit [2, 3] → ([2, 3] : List ℕ).prod = 0 ∨
        (usizeProduct ((AxisSpec.one 1).reduce [2, 3]) = 1 →
          ((AxisSpec.one 1).reduce [2, 3]).prod = 1)) :=
  @softmaxExact_iff (.one 1) ⟨.f32, [2, 3]⟩ ⟨.f32, [2, 3]⟩ (by decide)

/-- `7 * 7905747460161236407` wraps to one: every pair is divided by the sum of the
first pair. -/
theorem not_softmaxExact_wrapped :
    inferCallResults (.softmax (.one 0)) [⟨.f32, [2, 7, 7905747460161236407]⟩] =
        .ok [⟨.f32, [2, 7, 7905747460161236407]⟩] ∧
      ¬ SoftmaxExact.{0} (.one 0) ⟨.f32, [2, 7, 7905747460161236407]⟩ := by
  have hok : inferCallResults (.softmax (.one 0)) [⟨.f32, [2, 7, 7905747460161236407]⟩] =
      .ok [⟨.f32, [2, 7, 7905747460161236407]⟩] := by decide
  refine ⟨hok, fun hexact => ?_⟩
  rcases (Lowering.softmaxLowersTo_iff hok).mp hexact.1 (by decide) with hsame | hempty | hone
  · exact absurd (congrArg (fun ty => ty.shape.length) hsame) (by decide)
  · exact absurd hempty (by decide)
  · exact absurd (hone (by decide)) (by decide)

end Knok.Autograd
