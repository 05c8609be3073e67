import Mathlib
import Knok.Evaluates
import Knok.Numbers

/-!
# Rules of evaluation for conditions

What comparisons, the boolean connectives and `where` evaluate to.  A condition
is an expression with a boolean at every position; operands of different shapes
are broadcast to the joined shape.
-/

namespace Knok

open Arrays Control

universe u

/-! ## Type rules -/

section Types

variable {elem : ElementType} {lhs rhs cond shape target : List ℕ}

theorem inferCallResults_equal (h : broadcastShapeSlices lhs rhs = .ok shape) :
    inferCallResults .equal [⟨elem, lhs⟩, ⟨elem, rhs⟩] = .ok [⟨.bool, shape⟩] := by
  have hequality : equalityResultType ⟨elem, lhs⟩ ⟨elem, rhs⟩ = .ok ⟨.bool, shape⟩ := by
    simp only [equalityResultType, predicateResultType, broadcastOr, broadcastShape, h,
      except_bind_eq_ok_iff, failIf_eq_ok_iff, exists_const, bne_eq_false_iff_eq, true_and]
  show (equalityResultType ⟨elem, lhs⟩ ⟨elem, rhs⟩).bind _ = _
  rw [hequality]
  rfl

/-- The order comparisons. -/
def CallOp.comparesOrder : CallOp → Bool
  | .greater | .greaterEqual | .less | .lessEqual => true
  | _ => false

theorem isStaticCreation_of_comparesOrder {op : CallOp} (h : op.comparesOrder = true) :
    op.isStaticCreation = false := by
  cases op <;> first | rfl | cases h

theorem inferCallResults_comparison {op : CallOp} (hop : op.comparesOrder = true)
    (helem : elem.isNumeric = true) (h : broadcastShapeSlices lhs rhs = .ok shape) :
    inferCallResults op [⟨elem, lhs⟩, ⟨elem, rhs⟩] = .ok [⟨.bool, shape⟩] := by
  have hcomparison : comparisonResultType ⟨elem, lhs⟩ ⟨elem, rhs⟩ = .ok ⟨.bool, shape⟩ := by
    simp only [comparisonResultType, predicateResultType, broadcastOr, broadcastShape, h,
      expectNumericElement, except_bind_eq_ok_iff, failIf_eq_ok_iff, exists_const,
      bne_eq_false_iff_eq, true_and, helem, Bool.not_true]
  cases op <;> first
    | exact absurd hop Bool.false_ne_true
    | (show (comparisonResultType ⟨elem, lhs⟩ ⟨elem, rhs⟩).bind _ = _
       rw [hcomparison]
       rfl)

/-- The boolean connectives of two conditions. -/
def CallOp.connects : CallOp → Bool
  | .logicalAnd | .logicalOr | .logicalXor => true
  | _ => false

theorem inferCallResults_connective {op : CallOp} (hop : op.connects = true)
    (h : broadcastShapeSlices lhs rhs = .ok shape) :
    inferCallResults op [⟨.bool, lhs⟩, ⟨.bool, rhs⟩] = .ok [⟨.bool, shape⟩] := by
  have hlogical : logicalResultType ⟨.bool, lhs⟩ ⟨.bool, rhs⟩ = .ok ⟨.bool, shape⟩ := by
    simp only [logicalResultType, broadcastOr, broadcastShape, h]
    rfl
  cases op <;> first
    | exact absurd hop Bool.false_ne_true
    | (show (logicalResultType ⟨.bool, lhs⟩ ⟨.bool, rhs⟩).bind _ = _
       rw [hlogical]
       rfl)

theorem inferCallResults_where (h : broadcastShapeSlices lhs rhs = .ok shape)
    (hcond : broadcastShapeSlices cond shape = .ok target) :
    inferCallResults .where_ [⟨.bool, cond⟩, ⟨elem, lhs⟩, ⟨elem, rhs⟩] =
      .ok [⟨elem, target⟩] := by
  have hwhere : whereResultType ⟨.bool, cond⟩ ⟨elem, lhs⟩ ⟨elem, rhs⟩ = .ok ⟨elem, target⟩ := by
    simp only [whereResultType, broadcastOr, broadcastShape, h, except_bind_eq_ok_iff,
      failIf_eq_ok_iff, exists_const, bne_eq_false_iff_eq, true_and]
    refine ⟨(), rfl, _, rfl, ?_⟩
    rw [hcond]
  show (whereResultType ⟨.bool, cond⟩ ⟨elem, lhs⟩ ⟨elem, rhs⟩).bind _ = _
  rw [hwhere]
  rfl

end Types

/-! ## The rules -/

section Rules

variable {R : Type u} [CommRing R] {N : Numbers R} {calls : Calls (Tensor (Entry R))}
  {values : Env (Tensor (Entry R))} {e lhs rhs : Expr} {elem : ElementType}
  {shape lhsShape rhsShape condShape target : List ℕ} {w x y : List ℕ → Entry R}
  {c d : List ℕ → Bool}

/-- The expression evaluates to a condition. -/
def Decides (N : Numbers R) (calls : Calls (Tensor (Entry R))) (values : Env (Tensor (Entry R)))
    (e : Expr) (shape : List ℕ) (c : List ℕ → Bool) : Prop :=
  Evaluates N.arithmetic calls values e ⟨.bool, shape⟩ fun i => truth (c i)

theorem Decides.congr (h : Decides N calls values e shape c)
    (hcd : ∀ i, InBounds i shape → c i = d i) : Decides N calls values e shape d :=
  Evaluates.congr h fun i hi => congrArg truth (hcd i hi)

/-- An operation that compares the entries of its operands. -/
theorem decides_comparison {op : CallOp} {f : ElementType → Entry R → Entry R → Bool}
    (htype : inferCallResults op [⟨elem, lhsShape⟩, ⟨elem, rhsShape⟩] = .ok [⟨.bool, shape⟩])
    (hstatic : op.isStaticCreation = false)
    (hop : ∀ (l r : Tensor (Entry R)) (i : List ℕ),
      N.arithmetic.callEntry op [l, r] 0 i = truth (f l.ty.elem (l.at i) (r.at i)))
    (hshape : broadcastShapeSlices lhsShape rhsShape = .ok shape)
    (hl : Evaluates N.arithmetic calls values lhs ⟨elem, lhsShape⟩ x)
    (hr : Evaluates N.arithmetic calls values rhs ⟨elem, rhsShape⟩ y) :
    Decides N calls values (.call op [lhs, rhs]) shape fun i =>
      f elem (x (broadcastIndex lhsShape i)) (y (broadcastIndex rhsShape i)) := by
  obtain ⟨hlhs, hrhs⟩ := broadcastsTo_of_broadcastShapeSlices hshape
  refine hl.call_binary htype (validateStaticCreationCall_of_not_static hstatic _) hr
    fun l r hlty hrty hx hy i hi => ?_
  rw [hop, Tensor.at, Tensor.at, hlty, hrty, hx _ (hlhs.inBounds hi), hy _ (hrhs.inBounds hi)]

/-- An operation that connects two conditions. -/
theorem decides_connective {op : CallOp} {f : Bool → Bool → Bool} (hconnects : op.connects = true)
    (hop : ∀ (l r : Tensor (Entry R)) (i : List ℕ),
      N.arithmetic.callEntry op [l, r] 0 i = truth (f (holds (l.at i)) (holds (r.at i))))
    (hshape : broadcastShapeSlices lhsShape rhsShape = .ok shape)
    (hl : Decides N calls values lhs lhsShape c) (hr : Decides N calls values rhs rhsShape d) :
    Decides N calls values (.call op [lhs, rhs]) shape fun i =>
      f (c (broadcastIndex lhsShape i)) (d (broadcastIndex rhsShape i)) := by
  obtain ⟨hlhs, hrhs⟩ := broadcastsTo_of_broadcastShapeSlices hshape
  have hstatic : op.isStaticCreation = false := by
    cases op <;> first | rfl | cases hconnects
  refine Evaluates.call_binary (inferCallResults_connective hconnects hshape)
    (validateStaticCreationCall_of_not_static hstatic _) hl hr fun l r hlty hrty hc hd i hi => ?_
  rw [hop, Tensor.at, Tensor.at, hlty, hrty, hc _ (hlhs.inBounds hi), hd _ (hrhs.inBounds hi),
    holds_truth, holds_truth]

/-- A choice between two values. -/
theorem evaluates_where (hshape : broadcastShapeSlices lhsShape rhsShape = .ok shape)
    (hcond : broadcastShapeSlices condShape shape = .ok target)
    (hw : Evaluates N.arithmetic calls values e ⟨.bool, condShape⟩ w)
    (hl : Evaluates N.arithmetic calls values lhs ⟨elem, lhsShape⟩ x)
    (hr : Evaluates N.arithmetic calls values rhs ⟨elem, rhsShape⟩ y) :
    Evaluates N.arithmetic calls values (.call .where_ [e, lhs, rhs]) ⟨elem, target⟩ fun i =>
      if holds (w (broadcastIndex condShape i)) then x (broadcastIndex lhsShape i)
      else y (broadcastIndex rhsShape i) := by
  obtain ⟨hlhs, hrhs⟩ := broadcastsTo_of_broadcastShapeSlices hshape
  obtain ⟨hcondition, htarget⟩ := broadcastsTo_of_broadcastShapeSlices hcond
  refine Evaluates.call_ternary (inferCallResults_where hshape hcond) rfl hw hl hr
    fun f l r hfty hlty hrty hf hx hy i hi => ?_
  show (if holds (f.at i) then l.at i else r.at i) = _
  rw [Tensor.at, Tensor.at, Tensor.at, hfty, hlty, hrty, hf _ (hcondition.inBounds hi),
    hx _ ((hlhs.trans htarget).inBounds hi), hy _ ((hrhs.trans htarget).inBounds hi)]

/-- Entries where a condition holds, zero elsewhere. -/
theorem evaluates_mask (hcond : BroadcastsTo condShape shape)
    (hw : Evaluates N.arithmetic calls values e ⟨.bool, condShape⟩ w)
    (hx : Evaluates N.arithmetic calls values lhs ⟨elem, shape⟩ x) :
    Evaluates N.arithmetic calls values
      (.call .where_ [e, lhs, .call .zerosLike [lhs]]) ⟨elem, shape⟩ fun i =>
        if holds (w (broadcastIndex condShape i)) then x i else 0 := by
  have hself := broadcastShapeSlices_eq_right_iff.mpr (broadcastsTo_refl shape)
  refine (evaluates_where hself (broadcastShapeSlices_eq_right_iff.mpr hcond) hw hx
    hx.zerosLike).congr fun i hi => ?_
  rw [broadcastIndex_self hi]

/-- Entries where a condition does not hold, zero elsewhere. -/
theorem evaluates_mask_not (hcond : BroadcastsTo condShape shape)
    (hw : Evaluates N.arithmetic calls values e ⟨.bool, condShape⟩ w)
    (hx : Evaluates N.arithmetic calls values lhs ⟨elem, shape⟩ x) :
    Evaluates N.arithmetic calls values
      (.call .where_ [e, .call .zerosLike [lhs], lhs]) ⟨elem, shape⟩ fun i =>
        if holds (w (broadcastIndex condShape i)) then 0 else x i := by
  have hself := broadcastShapeSlices_eq_right_iff.mpr (broadcastsTo_refl shape)
  refine (evaluates_where hself (broadcastShapeSlices_eq_right_iff.mpr hcond) hw hx.zerosLike
    hx).congr fun i hi => ?_
  rw [broadcastIndex_self hi]

/-- Entries where a decided condition holds. -/
theorem Decides.mask (hcond : BroadcastsTo condShape shape)
    (hc : Decides N calls values e condShape c)
    (hx : Evaluates N.arithmetic calls values lhs ⟨elem, shape⟩ x) :
    Evaluates N.arithmetic calls values
      (.call .where_ [e, lhs, .call .zerosLike [lhs]]) ⟨elem, shape⟩ fun i =>
        if c (broadcastIndex condShape i) then x i else 0 :=
  (evaluates_mask hcond hc hx).congr fun i _ => by rw [holds_truth]

/-- An integer literal. -/
theorem evaluates_integer (calls : Calls (Tensor (Entry R))) (values : Env (Tensor (Entry R)))
    (text : String) (helem : elem.isFloat = false) :
    Evaluates N.arithmetic calls values (.const text elem) ⟨elem, []⟩
      fun _ => (0, integerLiteral text) := by
  refine (Evaluates.const _ calls values text elem).congr fun _ _ => ?_
  show (if elem.isFloat then _ else _) = _
  rw [helem]
  rfl

end Rules

end Knok
