import Mathlib
import Knok.NumberRules
import Knok.Autograd.Adjoint.Unbroadcast

/-!
# Gradients of selections

At every position `minimum`, `maximum`, `clip` and `where` return an entry of one
operand.  Their rules mask the gradient with comparisons that are written apart
from the forward operation, which for `clip` is a minimum followed by a maximum.

### Design decisions

* **Routes.**  A route names one operand for every position of the result.  The
  rules follow a route when every operand receives the entries routed to it,
  summed along its broadcast.
* **One condition.**  Crossed bounds are the only inputs on which no route exists:
  `clip` then returns the lower bound and its rule sends the entries of large values
  to the upper one.
-/

namespace Knok.Autograd

open Arrays Control

universe u

/-- The operands that a selection chooses between. -/
def selectedOperands : CallOp → List ℕ
  | .minimum | .maximum => [0, 1]
  | .clip => [0, 1, 2]
  | .where_ => [1, 2]
  | _ => []

/-! ## Type rules -/

/-- Selections and their operands. -/
inductive SelectionTyped : CallOp → List TensorType → TensorType → Prop
  | minimum {elem : ElementType} {a b s : List ℕ} (h : broadcastShapeSlices a b = .ok s) :
      SelectionTyped .minimum [⟨elem, a⟩, ⟨elem, b⟩] ⟨elem, s⟩
  | maximum {elem : ElementType} {a b s : List ℕ} (h : broadcastShapeSlices a b = .ok s) :
      SelectionTyped .maximum [⟨elem, a⟩, ⟨elem, b⟩] ⟨elem, s⟩
  | clip {elem : ElementType} {a b c t s : List ℕ} (h : broadcastShapeSlices a b = .ok t)
      (h' : broadcastShapeSlices t c = .ok s) :
      SelectionTyped .clip [⟨elem, a⟩, ⟨elem, b⟩, ⟨elem, c⟩] ⟨elem, s⟩
  | where_ {elem : ElementType} {a b c t s : List ℕ} (h : broadcastShapeSlices a b = .ok t)
      (h' : broadcastShapeSlices c t = .ok s) :
      SelectionTyped .where_ [⟨.bool, c⟩, ⟨elem, a⟩, ⟨elem, b⟩] ⟨elem, s⟩

/-- **The type rules of selections.** -/
theorem selectionTyped_of_inferCallResults {op : CallOp} {tys : List TensorType} {ty : TensorType}
    (hop : selectedOperands op ≠ []) (hok : inferCallResults op tys = .ok [ty]) :
    SelectionTyped op tys ty := by
  cases op with
  | minimum | maximum =>
      simp only [inferCallResults, except_bind_eq_ok_iff, expectBinary_eq_ok_iff, Prod.exists,
        except_pure_eq_ok_iff, expectNumericElement, failIf_eq_ok_iff, exists_const,
        binaryResultType_eq_ok_iff] at hok
      obtain ⟨⟨_, a⟩, ⟨_, b⟩, rfl, -, -, ⟨elem, s⟩, ⟨-, hb, ha, hshape⟩, hsingle⟩ := hok
      cases hsingle
      cases hb
      cases ha
      constructor
      exact hshape
  | clip =>
      simp only [inferCallResults, except_bind_eq_ok_iff, expectTernary_eq_ok_iff, Prod.exists,
        except_pure_eq_ok_iff, expectNumericElement, failIf_eq_ok_iff, exists_const,
        binaryResultType_eq_ok_iff] at hok
      obtain ⟨⟨_, a⟩, ⟨_, b⟩, ⟨_, c⟩, rfl, -, -, -, ⟨_, t⟩, ⟨-, hb, ht, hinner⟩, ⟨_, s⟩,
        ⟨-, hc, hs, houter⟩, hsingle⟩ := hok
      cases hsingle
      cases hb
      cases ht
      cases hc
      cases hs
      exact .clip hinner houter
  | where_ =>
      simp only [inferCallResults, whereResultType, except_bind_eq_ok_iff, expectTernary_eq_ok_iff,
        Prod.exists, except_pure_eq_ok_iff, expectBoolElement, failIf_eq_ok_iff, exists_const,
        broadcastOr_eq_ok_iff, bne_eq_false_iff_eq] at hok
      obtain ⟨⟨cond, c⟩, ⟨_, a⟩, ⟨_, b⟩, rfl, ⟨_, s⟩, ⟨hc, hb, ⟨_, t⟩, ⟨ht, hinner⟩, hs, houter⟩,
        hsingle⟩ := hok
      obtain rfl : cond = .bool := by cases cond <;> first | rfl | cases hc
      cases hsingle
      cases hb
      cases ht
      cases hs
      exact .where_ hinner houter
  | _ => exact absurd rfl hop

/-! ## Routes -/

section Routes

variable {R : Type u} [CommRing R]

/-- An operand. -/
def operand (xs : List (Tensor (Entry R))) (index : ℕ) : Tensor (Entry R) :=
  xs.getD index ⟨default, fun _ => 0⟩

/-- The entries of the taken positions, summed along a broadcast. -/
def routedSum (shape small : List ℕ) (takes : List ℕ → Bool) (g : List ℕ → Entry R)
    (j : List ℕ) : Entry R :=
  ∑ i ∈ box shape, if broadcastIndex small i = j ∧ takes i then g i else 0

theorem routedSum_congr {shape small : List ℕ} {takes takes' : List ℕ → Bool}
    {g : List ℕ → Entry R} (h : ∀ i, InBounds i shape → takes i = takes' i) (j : List ℕ) :
    routedSum shape small takes g j = routedSum shape small takes' g j :=
  Finset.sum_congr rfl fun i hi => by rw [h i (mem_box.mp hi)]

/-- Only one position has an entry. -/
theorem routedSum_unitArray {shape small i : List ℕ} {takes : List ℕ → Bool}
    (hi : InBounds i shape) :
    routedSum shape small takes (unitArray i : List ℕ → Entry R) (broadcastIndex small i) =
      if takes i then 1 else 0 := by
  unfold routedSum
  rw [Finset.sum_eq_single_of_mem i (mem_box.mpr hi) fun i' _ hne => by
    rw [unitArray, if_neg hne, ite_self]]
  rw [unitArray, if_pos rfl]
  exact if_congr (and_iff_right rfl) rfl rfl

/-- A route of a selection: at every position the named operand has the number
that the operation returned there, and so it is the first operand wherever that one
has it. -/
structure Route (N : Numbers R) (op : CallOp) (xs : List (Tensor (Entry R))) (ty : TensorType)
    (route : List ℕ → ℕ) : Prop where
  selected : ∀ i, InBounds i ty.shape → route i ∈ selectedOperands op
  returned : ∀ i, InBounds i ty.shape →
    ((operand xs (route i)).at i).1 = (N.arithmetic.callEntry op xs 0 i).1
  tie : op ≠ .where_ → ∀ i, InBounds i ty.shape →
    ((operand xs 0).at i).1 = (N.arithmetic.callEntry op xs 0 i).1 → route i = 0

/-- The rule sends every entry of the gradient to the operand on the route. -/
def FollowsRoute (N : Numbers R) (op : CallOp) (xs : List (Tensor (Entry R))) (ty : TensorType)
    (route : List ℕ → ℕ) : Prop :=
  ∀ (env : String → Option TensorType) (node : Node) (args : List Expr), node.ty = ty →
    List.Forall₂ (fun arg x => exprTy env arg = .ok x.ty) args xs →
    ∀ (calls : Calls (Tensor (Entry R))) (values : Env (Tensor (Entry R))) (grad : Expr)
      (g : List ℕ → Entry R),
      List.Forall₂ (fun arg x => Evaluates N.arithmetic calls values arg x.ty x.entry) args xs →
      Evaluates N.arithmetic calls values grad ty g →
      ∃ contributions, reverseCall env node op args grad = .ok contributions ∧
        List.Forall₂ (fun index contribution => contribution.1 = argAt args index ∧
          Evaluates N.arithmetic calls values contribution.2 (operand xs index).ty
            (routedSum ty.shape (operand xs index).ty.shape (fun i => route i = index) g))
          (selectedOperands op) contributions

/-- Some route is followed. -/
def SelectionRouted (N : Numbers R) (op : CallOp) (xs : List (Tensor (Entry R)))
    (ty : TensorType) : Prop :=
  ∃ route, Route N op xs ty route ∧ FollowsRoute N op xs ty route

/-- The upper bound lies below the lower bound and below the value. -/
def CrossedBelow [LT R] (xs : List (Tensor (Entry R))) (i : List ℕ) : Prop :=
  ((operand xs 2).at i).1 < ((operand xs 1).at i).1 ∧
    ((operand xs 2).at i).1 < ((operand xs 0).at i).1

end Routes

section Operands

variable {R : Type u} {xs : List (Tensor R)} {s t r : TensorType}

theorem exists_pair_of_map_ty (h : xs.map Tensor.ty = [s, t]) :
    ∃ x y, xs = [⟨s, x⟩, ⟨t, y⟩] := by
  obtain ⟨⟨_, x⟩, tail, rfl, rfl, htail⟩ := List.map_eq_cons_iff.mp h
  obtain ⟨⟨_, y⟩, rest, rfl, rfl, hrest⟩ := List.map_eq_cons_iff.mp htail
  obtain rfl := List.map_eq_nil_iff.mp hrest
  exact ⟨x, y, rfl⟩

theorem exists_triple_of_map_ty (h : xs.map Tensor.ty = [s, t, r]) :
    ∃ x y z, xs = [⟨s, x⟩, ⟨t, y⟩, ⟨r, z⟩] := by
  obtain ⟨⟨_, x⟩, tail, rfl, rfl, htail⟩ := List.map_eq_cons_iff.mp h
  obtain ⟨y, z, rfl⟩ := exists_pair_of_map_ty htail
  exact ⟨x, y, z, rfl⟩

end Operands

/-! ## Masked gradients -/

section Masked

variable {R : Type u} [CommRing R] {N : Numbers R} {calls : Calls (Tensor (Entry R))}
  {values : Env (Tensor (Entry R))} {env : String → Option TensorType} {e e' lhs rhs : Expr}
  {elem : ElementType} {a b shape : List ℕ} {takes takes' : List ℕ → Bool} {g : List ℕ → Entry R}

/-- A masked gradient, reduced to an operand. -/
theorem exists_unbroadcast_masked (helem : elem.isNumeric = true) (ha : BroadcastsTo a shape)
    (h : Evaluates N.arithmetic calls values e ⟨elem, shape⟩ fun i => if takes i then g i else 0) :
    ∃ reduced, unbroadcast e ⟨elem, shape⟩ ⟨elem, a⟩ = .ok reduced ∧
      Evaluates N.arithmetic calls values reduced ⟨elem, a⟩ (routedSum shape a takes g) := by
  obtain ⟨reduced, hreduced⟩ := (@exists_unbroadcast_iff e ⟨elem, shape⟩ ⟨elem, a⟩).mpr ⟨rfl, ha⟩
  refine ⟨reduced, hreduced, (evaluates_unbroadcast helem hreduced h).congr fun j _ => ?_⟩
  refine Finset.sum_congr rfl fun i _ => ?_
  rw [ite_and]
  exact if_congr Option.some_inj rfl rfl

/-- Two masked gradients, reduced to two operands. -/
theorem exists_binaryContributions_masked (helem : elem.isNumeric = true)
    (ha : BroadcastsTo a shape) (hb : BroadcastsTo b shape)
    (hlhs : exprTy env lhs = .ok ⟨elem, a⟩) (hrhs : exprTy env rhs = .ok ⟨elem, b⟩)
    (h : Evaluates N.arithmetic calls values e ⟨elem, shape⟩ fun i => if takes i then g i else 0)
    (h' : Evaluates N.arithmetic calls values e' ⟨elem, shape⟩
      fun i => if takes' i then g i else 0) :
    ∃ lhsGrad rhsGrad, binaryContributions env lhs rhs ⟨elem, shape⟩ e e' =
        .ok [(lhs, lhsGrad), (rhs, rhsGrad)] ∧
      Evaluates N.arithmetic calls values lhsGrad ⟨elem, a⟩ (routedSum shape a takes g) ∧
      Evaluates N.arithmetic calls values rhsGrad ⟨elem, b⟩ (routedSum shape b takes' g) := by
  obtain ⟨lhsGrad, hl, hlsum⟩ := exists_unbroadcast_masked helem ha h
  obtain ⟨rhsGrad, hr, hrsum⟩ := exists_unbroadcast_masked helem hb h'
  refine ⟨lhsGrad, rhsGrad, ?_, hlsum, hrsum⟩
  rw [binaryContributions, hlhs, hrhs]
  show (unbroadcast e ⟨elem, shape⟩ ⟨elem, a⟩).bind (fun lhsGrad =>
    (unbroadcast e' ⟨elem, shape⟩ ⟨elem, b⟩).bind fun rhsGrad =>
      .ok [(lhs, lhsGrad), (rhs, rhsGrad)]) = _
  rw [hl, hr]
  rfl

end Masked

/-! ## Minimum and maximum -/

section Extremes

variable {R : Type u} [CommRing R] {N : Numbers R} {op lhsOp rhsOp : CallOp} {elem : ElementType}
  {a b s : List ℕ} {x y : List ℕ → Entry R} {wins : ElementType → Entry R → Entry R → Bool}

/-- The rule of an extreme: the right operand receives the entries where it wins. -/
theorem followsRoute_extreme (helem : elem.isNumeric = true)
    (hshape : broadcastShapeSlices a b = .ok s) (hselected : selectedOperands op = [0, 1])
    (hlhsOp : lhsOp.comparesOrder = true) (hrhsOp : rhsOp.comparesOrder = true)
    (hlhs : ∀ (l r : Tensor (Entry R)) (i : List ℕ),
      N.arithmetic.callEntry lhsOp [l, r] 0 i = truth (!wins l.ty.elem (l.at i) (r.at i)))
    (hrhs : ∀ (l r : Tensor (Entry R)) (i : List ℕ),
      N.arithmetic.callEntry rhsOp [l, r] 0 i = truth (wins l.ty.elem (r.at i) (l.at i)))
    (hrule : ∀ (env : String → Option TensorType) (node : Node) (lhs rhs grad : Expr),
      node.ty = ⟨elem, s⟩ → reverseCall env node op [lhs, rhs] grad =
        binaryContributions env lhs rhs node.ty (maskGrad (call lhsOp [lhs, rhs]) grad)
          (maskGrad (call rhsOp [rhs, lhs]) grad)) :
    FollowsRoute N op [⟨⟨elem, a⟩, x⟩, ⟨⟨elem, b⟩, y⟩] ⟨elem, s⟩ fun i =>
      if wins elem (x (broadcastIndex a i)) (y (broadcastIndex b i)) then 1 else 0 := by
  intro env node args hnode hargs calls values grad g hvalues hg
  obtain ⟨lhs, rhs, rfl⟩ := List.length_eq_two.mp hargs.length_eq
  obtain ⟨hl, hargs⟩ := List.forall₂_cons.mp hargs
  obtain ⟨hr, -⟩ := List.forall₂_cons.mp hargs
  obtain ⟨hx, hvalues⟩ := List.forall₂_cons.mp hvalues
  obtain ⟨hy, -⟩ := List.forall₂_cons.mp hvalues
  obtain ⟨ha, hb⟩ := broadcastsTo_of_broadcastShapeSlices hshape
  have hshape' := broadcastShapeSlices_comm hshape
  have hkeeps : Decides N calls values (call lhsOp [lhs, rhs]) s fun i =>
      !wins elem (x (broadcastIndex a i)) (y (broadcastIndex b i)) :=
    decides_comparison (f := fun elem l r => !wins elem l r)
      (inferCallResults_comparison hlhsOp helem hshape)
      (isStaticCreation_of_comparesOrder hlhsOp) hlhs hshape hx hy
  have hloses : Decides N calls values (call rhsOp [rhs, lhs]) s fun i =>
      wins elem (x (broadcastIndex a i)) (y (broadcastIndex b i)) :=
    decides_comparison (f := fun elem l r => wins elem r l)
      (inferCallResults_comparison hrhsOp helem hshape')
      (isStaticCreation_of_comparesOrder hrhsOp) hrhs hshape' hy hx
  have hlmask : Evaluates N.arithmetic calls values (maskGrad (call lhsOp [lhs, rhs]) grad)
      ⟨elem, s⟩ fun i => if decide ((if wins elem (x (broadcastIndex a i)) (y (broadcastIndex b i))
        then 1 else 0) = 0) then g i else 0 :=
    (hkeeps.mask (broadcastsTo_refl s) hg).congr fun i hi => by
      rw [broadcastIndex_self hi]
      cases wins elem (x (broadcastIndex a i)) (y (broadcastIndex b i)) <;> rfl
  have hrmask : Evaluates N.arithmetic calls values (maskGrad (call rhsOp [rhs, lhs]) grad)
      ⟨elem, s⟩ fun i => if decide ((if wins elem (x (broadcastIndex a i)) (y (broadcastIndex b i))
        then 1 else 0) = 1) then g i else 0 :=
    (hloses.mask (broadcastsTo_refl s) hg).congr fun i hi => by
      rw [broadcastIndex_self hi]
      cases wins elem (x (broadcastIndex a i)) (y (broadcastIndex b i)) <;> rfl
  obtain ⟨lhsGrad, rhsGrad, hcontributions, hlsum, hrsum⟩ :=
    exists_binaryContributions_masked helem ha hb hl hr hlmask hrmask
  refine ⟨_, (hrule env node lhs rhs grad hnode).trans (hnode ▸ hcontributions), ?_⟩
  rw [hselected]
  exact .cons ⟨rfl, hlsum⟩ (.cons ⟨rfl, hrsum⟩ .nil)

/-- The route of an extreme: the right operand where it wins. -/
theorem route_extreme (hselected : selectedOperands op = [0, 1])
    (hforward : ∀ (l r : Tensor (Entry R)) (i : List ℕ), N.arithmetic.callEntry op [l, r] 0 i =
      if wins l.ty.elem (l.at i) (r.at i) then r.at i else l.at i)
    (hwins : ∀ l r : Entry R, wins elem l r = true → l.1 ≠ r.1) :
    Route N op [⟨⟨elem, a⟩, x⟩, ⟨⟨elem, b⟩, y⟩] ⟨elem, s⟩ fun i =>
      if wins elem (x (broadcastIndex a i)) (y (broadcastIndex b i)) then 1 else 0 := by
  refine ⟨fun i _ => ?_, fun i _ => ?_, fun _ i _ htie => ?_⟩
  · rw [hselected]
    cases wins elem (x (broadcastIndex a i)) (y (broadcastIndex b i)) <;> decide
  · rw [hforward]
    show _ = (if wins elem (x (broadcastIndex a i)) (y (broadcastIndex b i))
      then y (broadcastIndex b i) else x (broadcastIndex a i)).1
    cases wins elem (x (broadcastIndex a i)) (y (broadcastIndex b i)) <;> rfl
  · rw [hforward] at htie
    cases hright : wins elem (x (broadcastIndex a i)) (y (broadcastIndex b i)) with
    | false => rfl
    | true =>
        have htie : (x (broadcastIndex a i)).1 =
            (if wins elem (x (broadcastIndex a i)) (y (broadcastIndex b i))
              then y (broadcastIndex b i) else x (broadcastIndex a i)).1 := htie
        rw [hright] at htie
        exact absurd htie (hwins _ _ hright)

end Extremes

/-! ## Choices -/

section Choices

variable {R : Type u} [CommRing R] {N : Numbers R} {elem : ElementType} {a b c t s : List ℕ}
  {w x y : List ℕ → Entry R}

/-- The rule of `where`: the condition decides. -/
theorem followsRoute_where (helem : elem.isFloat = true)
    (hshape : broadcastShapeSlices a b = .ok t) (hcond : broadcastShapeSlices c t = .ok s) :
    FollowsRoute N .where_ [⟨⟨.bool, c⟩, w⟩, ⟨⟨elem, a⟩, x⟩, ⟨⟨elem, b⟩, y⟩] ⟨elem, s⟩ fun i =>
      if holds (w (broadcastIndex c i)) then 1 else 2 := by
  intro env node args hnode hargs calls values grad g hvalues hg
  obtain ⟨cond, lhs, rhs, rfl⟩ := List.length_eq_three.mp hargs.length_eq
  obtain ⟨-, hargs⟩ := List.forall₂_cons.mp hargs
  obtain ⟨hl, hargs⟩ := List.forall₂_cons.mp hargs
  obtain ⟨hr, -⟩ := List.forall₂_cons.mp hargs
  obtain ⟨hw, -⟩ := List.forall₂_cons.mp hvalues
  obtain ⟨ha, hb⟩ := broadcastsTo_of_broadcastShapeSlices hshape
  obtain ⟨hc, ht⟩ := broadcastsTo_of_broadcastShapeSlices hcond
  have htrue : Evaluates N.arithmetic calls values (maskGrad cond grad) ⟨elem, s⟩ fun i =>
      if decide ((if holds (w (broadcastIndex c i)) then 1 else 2) = 1) then g i else 0 :=
    (evaluates_mask hc hw hg).congr fun i _ => by
      cases holds (w (broadcastIndex c i)) <;> rfl
  have hfalse : Evaluates N.arithmetic calls values (call .where_ [cond, zerosLike grad, grad])
      ⟨elem, s⟩ fun i =>
        if decide ((if holds (w (broadcastIndex c i)) then 1 else 2) = 2) then g i else 0 :=
    (evaluates_mask_not hc hw hg).congr fun i _ => by
      cases holds (w (broadcastIndex c i)) <;> rfl
  obtain ⟨lhsGrad, rhsGrad, hcontributions, hlsum, hrsum⟩ :=
    exists_binaryContributions_masked (ElementType.isNumeric_of_isFloat helem) (ha.trans ht)
      (hb.trans ht) hl hr htrue hfalse
  have hrule : reverseCall env node .where_ [cond, lhs, rhs] grad =
      binaryContributions env lhs rhs ⟨elem, s⟩ (maskGrad cond grad)
        (call .where_ [cond, zerosLike grad, grad]) := by
    simp only [reverseCall, callStopsGradient, hnode, helem, Bool.not_true]
    rfl
  exact ⟨_, hrule.trans hcontributions, .cons ⟨rfl, hlsum⟩ (.cons ⟨rfl, hrsum⟩ .nil)⟩

theorem reverseClip_eq_ok {env : String → Option TensorType} {outputTy valueTy lowTy highTy : TensorType}
    {value low high grad valueGrad lowGrad highGrad : Expr} (hvalue : exprTy env value = .ok valueTy)
    (hlow : exprTy env low = .ok lowTy) (hhigh : exprTy env high = .ok highTy)
    (hvalueOk : unbroadcast (maskGrad (call .logicalAnd [call .greaterEqual [value, low],
      call .lessEqual [value, high]]) grad) outputTy valueTy = .ok valueGrad)
    (hlowOk : unbroadcast (maskGrad (call .less [value, low]) grad) outputTy lowTy = .ok lowGrad)
    (hhighOk : unbroadcast (maskGrad (call .greater [value, high]) grad) outputTy highTy =
      .ok highGrad) :
    reverseClip env [value, low, high] outputTy grad =
      .ok [(value, valueGrad), (low, lowGrad), (high, highGrad)] := by
  unfold reverseClip
  show (exprTy env value).bind (fun valueTy => (exprTy env low).bind fun lowTy =>
    (exprTy env high).bind fun highTy =>
      (unbroadcast (maskGrad (call .logicalAnd [call .greaterEqual [value, low],
        call .lessEqual [value, high]]) grad) outputTy valueTy).bind fun valueGrad =>
      (unbroadcast (maskGrad (call .less [value, low]) grad) outputTy lowTy).bind fun lowGrad =>
      (unbroadcast (maskGrad (call .greater [value, high]) grad) outputTy highTy).bind
        fun highGrad => .ok [(value, valueGrad), (low, lowGrad), (high, highGrad)]) = _
  rw [hvalue, hlow, hhigh]
  show (unbroadcast (maskGrad (call .logicalAnd [call .greaterEqual [value, low],
    call .lessEqual [value, high]]) grad) outputTy valueTy).bind _ = _
  rw [hvalueOk]
  show (unbroadcast (maskGrad (call .less [value, low]) grad) outputTy lowTy).bind _ = _
  rw [hlowOk]
  show (unbroadcast (maskGrad (call .greater [value, high]) grad) outputTy highTy).bind _ = _
  rw [hhighOk]
  rfl

/-- What the rule of `clip` emits: the masks compare the value with both bounds. -/
theorem exists_clipContributions {z : List ℕ → Entry R} (helem : elem.isFloat = true)
    (hinner : broadcastShapeSlices a b = .ok t) (houter : broadcastShapeSlices t c = .ok s)
    {env : String → Option TensorType} {node : Node} (hnode : node.ty = ⟨elem, s⟩)
    {value low high grad : Expr} (hvalueTy : exprTy env value = .ok ⟨elem, a⟩)
    (hlowTy : exprTy env low = .ok ⟨elem, b⟩) (hhighTy : exprTy env high = .ok ⟨elem, c⟩)
    {calls : Calls (Tensor (Entry R))} {values : Env (Tensor (Entry R))} {g : List ℕ → Entry R}
    (hx : Evaluates N.arithmetic calls values value ⟨elem, a⟩ x)
    (hy : Evaluates N.arithmetic calls values low ⟨elem, b⟩ y)
    (hz : Evaluates N.arithmetic calls values high ⟨elem, c⟩ z)
    (hg : Evaluates N.arithmetic calls values grad ⟨elem, s⟩ g) :
    ∃ valueGrad lowGrad highGrad,
      reverseCall env node .clip [value, low, high] grad =
        .ok [(value, valueGrad), (low, lowGrad), (high, highGrad)] ∧
      Evaluates N.arithmetic calls values valueGrad ⟨elem, a⟩ (routedSum s a (fun i =>
        !N.lessAt elem (x (broadcastIndex a i)) (y (broadcastIndex b i)) &&
          !N.lessAt elem (z (broadcastIndex c i)) (x (broadcastIndex a i))) g) ∧
      Evaluates N.arithmetic calls values lowGrad ⟨elem, b⟩ (routedSum s b (fun i =>
        N.lessAt elem (x (broadcastIndex a i)) (y (broadcastIndex b i))) g) ∧
      Evaluates N.arithmetic calls values highGrad ⟨elem, c⟩ (routedSum s c (fun i =>
        N.lessAt elem (z (broadcastIndex c i)) (x (broadcastIndex a i))) g) := by
  have hnumeric := ElementType.isNumeric_of_isFloat helem
  obtain ⟨hat, hbt⟩ := broadcastsTo_of_broadcastShapeSlices hinner
  obtain ⟨hts, hcs⟩ := broadcastsTo_of_broadcastShapeSlices houter
  obtain ⟨u, hupper, hus⟩ := exists_joined (hat.trans hts) hcs
  obtain ⟨hau, hcu⟩ := broadcastsTo_of_broadcastShapeSlices hupper
  obtain ⟨m, hboth, hms⟩ := exists_joined hts hus
  obtain ⟨htm, hum⟩ := broadcastsTo_of_broadcastShapeSlices hboth
  -- the three masks, each over the joined shape of what it compares
  have habove : Decides N calls values (call .greaterEqual [value, low]) t fun i =>
      !N.lessAt elem (x (broadcastIndex a i)) (y (broadcastIndex b i)) :=
    decides_comparison (f := fun elem l r => !N.lessAt elem l r)
      (inferCallResults_comparison rfl hnumeric hinner) rfl (fun _ _ _ => rfl) hinner hx hy
  have hbelow : Decides N calls values (call .lessEqual [value, high]) u fun i =>
      !N.lessAt elem (z (broadcastIndex c i)) (x (broadcastIndex a i)) :=
    decides_comparison (f := fun elem l r => !N.lessAt elem r l)
      (inferCallResults_comparison rfl hnumeric hupper) rfl (fun _ _ _ => rfl) hupper hx hz
  have hwithin := @decides_connective R _ N calls values _ _ m t u _ _ .logicalAnd and rfl
    (fun _ _ _ => rfl) hboth habove hbelow
  have hlow : Decides N calls values (call .less [value, low]) t fun i =>
      N.lessAt elem (x (broadcastIndex a i)) (y (broadcastIndex b i)) :=
    decides_comparison (inferCallResults_comparison rfl hnumeric hinner) rfl (fun _ _ _ => rfl)
      hinner hx hy
  have hhigh : Decides N calls values (call .greater [value, high]) u fun i =>
      N.lessAt elem (z (broadcastIndex c i)) (x (broadcastIndex a i)) :=
    decides_comparison (f := fun elem l r => N.lessAt elem r l)
      (inferCallResults_comparison rfl hnumeric hupper) rfl (fun _ _ _ => rfl) hupper hx hz
  obtain ⟨valueGrad, hvalueOk, hvalue⟩ :=
    exists_unbroadcast_masked hnumeric (hat.trans hts) (hwithin.mask hms hg)
  obtain ⟨lowGrad, hlowOk, hlow⟩ :=
    exists_unbroadcast_masked hnumeric (hbt.trans hts) (hlow.mask hts hg)
  obtain ⟨highGrad, hhighOk, hhigh⟩ := exists_unbroadcast_masked hnumeric hcs (hhigh.mask hus hg)
  refine ⟨valueGrad, lowGrad, highGrad, ?_, hvalue.congr fun j _ => ?_, hlow.congr fun j _ => ?_,
    hhigh.congr fun j _ => ?_⟩
  · have hrule : reverseCall env node .clip [value, low, high] grad =
        reverseClip env [value, low, high] ⟨elem, s⟩ grad := by
      simp only [reverseCall, callStopsGradient, hnode, helem, Bool.not_true]
      rfl
    exact hrule.trans (reverseClip_eq_ok hvalueTy hlowTy hhighTy hvalueOk hlowOk hhighOk)
  · refine routedSum_congr (fun i hi => ?_) j
    have hlen := hi.length_eq.symm.le
    have hmlen := hms.1.trans hlen
    have htlen : t.length ≤ (broadcastIndex m i).length := by
      rw [length_broadcastIndex hmlen]
      exact htm.1
    have hulen : u.length ≤ (broadcastIndex m i).length := by
      rw [length_broadcastIndex hmlen]
      exact hum.1
    rw [hat.broadcastIndex_trans htlen, hbt.broadcastIndex_trans htlen,
      hau.broadcastIndex_trans hulen, hcu.broadcastIndex_trans hulen,
      (hat.trans htm).broadcastIndex_trans hmlen, (hbt.trans htm).broadcastIndex_trans hmlen,
      (hcu.trans hum).broadcastIndex_trans hmlen]
  · refine routedSum_congr (fun i hi => ?_) j
    have hlen := hi.length_eq.symm.le
    rw [hat.broadcastIndex_trans (hts.1.trans hlen), hbt.broadcastIndex_trans (hts.1.trans hlen)]
  · refine routedSum_congr (fun i hi => ?_) j
    have hlen := hi.length_eq.symm.le
    rw [hau.broadcastIndex_trans (hus.1.trans hlen), hcu.broadcastIndex_trans (hus.1.trans hlen)]

end Choices

/-! ## Ordered numbers -/

section Ordered

variable {R : Type u} [CommRing R] [LinearOrder R] {literal : String → R} {div : R → R → R}
  {elem : ElementType} {a b c t s : List ℕ} {w x y z : List ℕ → Entry R}

theorem routed_minimum (helem : elem.isFloat = true) (hshape : broadcastShapeSlices a b = .ok s) :
    SelectionRouted (.ofOrder literal div) .minimum [⟨⟨elem, a⟩, x⟩, ⟨⟨elem, b⟩, y⟩]
      ⟨elem, s⟩ := by
  let N : Numbers R := .ofOrder literal div
  have hwins : ∀ l r : Entry R, N.lessAt elem r l = true → l.1 ≠ r.1 := by
    intro l r hless
    rw [Numbers.lessAt_ofOrder helem, decide_eq_true_iff] at hless
    exact hless.ne'
  refine ⟨_, @route_extreme R _ N .minimum elem a b s x y (fun elem l r => N.lessAt elem r l) rfl
    (fun _ _ _ => rfl) hwins, @followsRoute_extreme R _ N .minimum .lessEqual .less elem a b s x y
      (fun elem l r => N.lessAt elem r l) (ElementType.isNumeric_of_isFloat helem) hshape rfl rfl
      rfl (fun _ _ _ => rfl) (fun _ _ _ => rfl) fun env node lhs rhs grad hnode => ?_⟩
  simp only [reverseCall, callStopsGradient, hnode, helem, Bool.not_true]
  rfl

theorem routed_maximum (helem : elem.isFloat = true) (hshape : broadcastShapeSlices a b = .ok s) :
    SelectionRouted (.ofOrder literal div) .maximum [⟨⟨elem, a⟩, x⟩, ⟨⟨elem, b⟩, y⟩]
      ⟨elem, s⟩ := by
  let N : Numbers R := .ofOrder literal div
  have hwins : ∀ l r : Entry R, N.lessAt elem l r = true → l.1 ≠ r.1 := by
    intro l r hless
    rw [Numbers.lessAt_ofOrder helem, decide_eq_true_iff] at hless
    exact hless.ne
  refine ⟨_, @route_extreme R _ N .maximum elem a b s x y N.lessAt rfl (fun _ _ _ => rfl) hwins,
    @followsRoute_extreme R _ N .maximum .greaterEqual .greater elem a b s x y N.lessAt
      (ElementType.isNumeric_of_isFloat helem) hshape rfl rfl rfl (fun _ _ _ => rfl)
      (fun _ _ _ => rfl) fun env node lhs rhs grad hnode => ?_⟩
  simp only [reverseCall, callStopsGradient, hnode, helem, Bool.not_true]
  rfl

theorem routed_where (helem : elem.isFloat = true) (hshape : broadcastShapeSlices a b = .ok t)
    (hcond : broadcastShapeSlices c t = .ok s) :
    SelectionRouted (.ofOrder literal div) .where_
      [⟨⟨.bool, c⟩, w⟩, ⟨⟨elem, a⟩, x⟩, ⟨⟨elem, b⟩, y⟩] ⟨elem, s⟩ := by
  refine ⟨_, ⟨fun i _ => ?_, fun i _ => ?_, fun hne => absurd rfl hne⟩,
    followsRoute_where helem hshape hcond⟩
  · cases holds (w (broadcastIndex c i)) <;> decide
  · show _ = (if holds (w (broadcastIndex c i)) then x (broadcastIndex a i)
      else y (broadcastIndex b i)).1
    cases holds (w (broadcastIndex c i)) <;> rfl

/-- What `clip` returns. -/
theorem clip_entry (helem : elem.isFloat = true) (i : List ℕ) :
    ((Numbers.ofOrder literal div).arithmetic.callEntry .clip
      [⟨⟨elem, a⟩, x⟩, ⟨⟨elem, b⟩, y⟩, ⟨⟨elem, c⟩, z⟩] 0 i).1 =
        max (min (x (broadcastIndex a i)).1 (z (broadcastIndex c i)).1)
          (y (broadcastIndex b i)).1 := by
  show ((Numbers.ofOrder literal div).maximumAt elem ((Numbers.ofOrder literal div).minimumAt elem
    (x (broadcastIndex a i)) (z (broadcastIndex c i))) (y (broadcastIndex b i))).1 = _
  rw [Numbers.maximumAt_ofOrder helem, Numbers.minimumAt_ofOrder helem]

/-- The operand on the route of `clip`: the lower bound below it, the upper bound
above it, the value otherwise. -/
def clipRoute (value low high : R) : ℕ :=
  if value < low then 1 else if high < value then 2 else 0

omit [CommRing R] in
theorem clipRoute_eq_zero_iff {value low high : R} :
    clipRoute value low high = 0 ↔ ¬ value < low ∧ ¬ high < value := by
  unfold clipRoute
  split_ifs <;> simp_all

omit [CommRing R] in
theorem clipRoute_eq_one_iff {value low high : R} :
    clipRoute value low high = 1 ↔ value < low := by
  unfold clipRoute
  split_ifs <;> simp_all

omit [CommRing R] in
theorem clipRoute_eq_two_iff {value low high : R} (h : high < value → low ≤ high) :
    clipRoute value low high = 2 ↔ high < value := by
  have hexclusive : high < value → ¬ value < low := fun habove =>
    not_lt.mpr ((h habove).trans habove.le)
  unfold clipRoute
  split_ifs <;> simp_all

/-- **Without crossed bounds `clip` follows a route.** -/
theorem routed_clip (helem : elem.isFloat = true) (hinner : broadcastShapeSlices a b = .ok t)
    (houter : broadcastShapeSlices t c = .ok s)
    (hbounds : ∀ i, InBounds i s →
      ¬ CrossedBelow [⟨⟨elem, a⟩, x⟩, ⟨⟨elem, b⟩, y⟩, ⟨⟨elem, c⟩, z⟩] i) :
    SelectionRouted (.ofOrder literal div) .clip
      [⟨⟨elem, a⟩, x⟩, ⟨⟨elem, b⟩, y⟩, ⟨⟨elem, c⟩, z⟩] ⟨elem, s⟩ := by
  let value := fun i => (x (broadcastIndex a i)).1
  let low := fun i => (y (broadcastIndex b i)).1
  let high := fun i => (z (broadcastIndex c i)).1
  have hbounds : ∀ i, InBounds i s → high i < value i → low i ≤ high i := by
    intro i hi hlarge
    by_contra hcrossed
    exact hbounds i hi ⟨not_le.mp hcrossed, hlarge⟩
  refine ⟨fun i => clipRoute (value i) (low i) (high i),
    ⟨fun i _ => ?_, fun i hi => ?_, fun _ i hi htie => ?_⟩, ?_⟩
  · show clipRoute (value i) (low i) (high i) ∈ [0, 1, 2]
    unfold clipRoute
    split_ifs <;> decide
  · rw [clip_entry helem]
    show _ = max (min (value i) (high i)) (low i)
    unfold clipRoute
    split_ifs with hbelow habove
    · exact (max_eq_right ((min_le_left _ _).trans hbelow.le)).symm
    · rw [min_eq_right habove.le, max_eq_left (hbounds i hi habove)]
      rfl
    · rw [min_eq_left (not_lt.mp habove), max_eq_left (not_lt.mp hbelow)]
      rfl
  · rw [clip_entry helem] at htie
    have htie : value i = max (min (value i) (high i)) (low i) := htie
    refine clipRoute_eq_zero_iff.mpr ⟨not_lt.mpr (htie ▸ le_max_right _ _), fun habove => ?_⟩
    rw [min_eq_right habove.le, max_eq_left (hbounds i hi habove)] at htie
    exact habove.ne' htie
  · intro env node args hnode hargs calls values grad g hvalues hg
    obtain ⟨valueArg, lowArg, highArg, rfl⟩ := List.length_eq_three.mp hargs.length_eq
    obtain ⟨hxTy, hargs⟩ := List.forall₂_cons.mp hargs
    obtain ⟨hyTy, hargs⟩ := List.forall₂_cons.mp hargs
    obtain ⟨hzTy, -⟩ := List.forall₂_cons.mp hargs
    obtain ⟨hx, hvalues⟩ := List.forall₂_cons.mp hvalues
    obtain ⟨hy, hvalues⟩ := List.forall₂_cons.mp hvalues
    obtain ⟨hz, -⟩ := List.forall₂_cons.mp hvalues
    obtain ⟨valueGrad, lowGrad, highGrad, hrule, hvalue, hlow, hhigh⟩ :=
      exists_clipContributions helem hinner houter hnode hxTy hyTy hzTy hx hy hz hg
    refine ⟨_, hrule, .cons ⟨rfl, hvalue.congr fun j _ => routedSum_congr (fun i hi => ?_) j⟩
      (.cons ⟨rfl, hlow.congr fun j _ => routedSum_congr (fun i hi => ?_) j⟩
        (.cons ⟨rfl, hhigh.congr fun j _ => routedSum_congr (fun i hi => ?_) j⟩ .nil))⟩
    · rw [Numbers.lessAt_ofOrder helem, Numbers.lessAt_ofOrder helem, ← decide_not, ← decide_not,
        ← Bool.decide_and]
      exact decide_eq_decide.mpr clipRoute_eq_zero_iff.symm
    · rw [Numbers.lessAt_ofOrder helem]
      exact decide_eq_decide.mpr clipRoute_eq_one_iff.symm
    · rw [Numbers.lessAt_ofOrder helem]
      exact decide_eq_decide.mpr (clipRoute_eq_two_iff (hbounds i hi)).symm

/-- Three named operands. -/
def tripleEnv (x y z : TensorType) : String → Option TensorType
  | "x" => some x
  | "y" => some y
  | "z" => some z
  | _ => none

/-- Three named operands and an incoming gradient. -/
def tripleValues (x y z g : Tensor (Entry R)) : Env (Tensor (Entry R))
  | "x" => some x
  | "y" => some y
  | "z" => some z
  | "g" => some g
  | _ => none

/-- **Crossed bounds leave no route**: the rule sends the entry of a large value to
the upper bound, and `clip` returned the lower one. -/
theorem not_crossedBelow_of_routed (helem : elem.isFloat = true)
    (hinner : broadcastShapeSlices a b = .ok t) (houter : broadcastShapeSlices t c = .ok s)
    (h : SelectionRouted (.ofOrder literal div) .clip
      [⟨⟨elem, a⟩, x⟩, ⟨⟨elem, b⟩, y⟩, ⟨⟨elem, c⟩, z⟩] ⟨elem, s⟩) {i : List ℕ} (hi : InBounds i s) :
    ¬ CrossedBelow [⟨⟨elem, a⟩, x⟩, ⟨⟨elem, b⟩, y⟩, ⟨⟨elem, c⟩, z⟩] i := by
  rintro ⟨hcrossed, hlarge⟩
  have hcrossed : (z (broadcastIndex c i)).1 < (y (broadcastIndex b i)).1 := hcrossed
  have hlarge : (z (broadcastIndex c i)).1 < (x (broadcastIndex a i)).1 := hlarge
  obtain ⟨route, hroute, hfollows⟩ := h
  let xs : List (Tensor (Entry R)) := [⟨⟨elem, a⟩, x⟩, ⟨⟨elem, b⟩, y⟩, ⟨⟨elem, c⟩, z⟩]
  let node : Node := ⟨"w", .call .clip [.var "x", .var "y", .var "z"], ⟨elem, s⟩⟩
  let env := tripleEnv ⟨elem, a⟩ ⟨elem, b⟩ ⟨elem, c⟩
  let g : List ℕ → Entry R := unitArray i
  let values := tripleValues ⟨⟨elem, a⟩, x⟩ ⟨⟨elem, b⟩, y⟩ ⟨⟨elem, c⟩, z⟩ ⟨⟨elem, s⟩, g⟩
  let A : Arithmetic (Entry R) := (Numbers.ofOrder literal div).arithmetic
  have hx : Evaluates A noCalls values (.var "x") ⟨elem, a⟩ x := ⟨_, rfl, rfl, fun _ _ => rfl⟩
  have hy : Evaluates A noCalls values (.var "y") ⟨elem, b⟩ y := ⟨_, rfl, rfl, fun _ _ => rfl⟩
  have hz : Evaluates A noCalls values (.var "z") ⟨elem, c⟩ z := ⟨_, rfl, rfl, fun _ _ => rfl⟩
  have hg : Evaluates A noCalls values (.var "g") ⟨elem, s⟩ g := ⟨_, rfl, rfl, fun _ _ => rfl⟩
  have hnode : node.ty = ⟨elem, s⟩ := rfl
  have hxTy : exprTy env (.var "x") = .ok ⟨elem, a⟩ := rfl
  have hyTy : exprTy env (.var "y") = .ok ⟨elem, b⟩ := rfl
  have hzTy : exprTy env (.var "z") = .ok ⟨elem, c⟩ := rfl
  -- what the upper bound receives, by the rule and by the route
  obtain ⟨valueGrad, lowGrad, highGrad, hrule, -, -, hhigh⟩ :=
    exists_clipContributions helem hinner houter hnode hxTy hyTy hzTy hx hy hz hg
  obtain ⟨contributions, hcall, hsent⟩ := hfollows env node [.var "x", .var "y", .var "z"] hnode
    (.cons hxTy (.cons hyTy (.cons hzTy .nil))) noCalls values (.var "g") g
    (.cons hx (.cons hy (.cons hz .nil))) hg
  rw [hrule] at hcall
  obtain rfl := Except.ok.inj hcall
  obtain ⟨-, hsent⟩ := List.forall₂_cons.mp hsent
  obtain ⟨-, hsent⟩ := List.forall₂_cons.mp hsent
  obtain ⟨⟨-, hrouted⟩, -⟩ := List.forall₂_cons.mp hsent
  obtain ⟨-, hcs⟩ := broadcastsTo_of_broadcastShapeSlices houter
  have hread := hhigh.entry_eq hrouted (hcs.inBounds hi)
  have hread : routedSum s c _ (unitArray i) (broadcastIndex c i) =
    routedSum s c _ (unitArray i) (broadcastIndex c i) := hread
  rw [routedSum_unitArray hi, routedSum_unitArray hi, Numbers.lessAt_ofOrder helem,
    decide_eq_true hlarge, if_pos rfl] at hread
  have hone : (1 : Entry R) ≠ 0 := by
    have : Nontrivial R := nontrivial_of_lt _ _ hlarge
    exact fun hone => one_ne_zero (congrArg Prod.fst hone)
  have htaken : route i = 2 := by
    by_contra hother
    rw [decide_eq_false hother, if_neg Bool.false_ne_true] at hread
    exact hone hread
  have hreturned := hroute.returned i hi
  rw [htaken, clip_entry helem, min_eq_right hlarge.le, max_eq_right hcrossed.le] at hreturned
  exact hcrossed.ne hreturned

end Ordered

/-- **The rules of `minimum`, `maximum`, `clip` and `where` follow a route, crossed
bounds excepted.**  Of the four, only `clip` can fail to, and it does exactly where
its upper bound lies below its lower bound and below the value. -/
theorem selectionRouted_iff {R : Type u} [CommRing R] [LinearOrder R] (literal : String → R)
    (div : R → R → R) {op : CallOp} {xs : List (Tensor (Entry R))} {ty : TensorType}
    (hop : selectedOperands op ≠ []) (hok : inferCallResults op (xs.map Tensor.ty) = .ok [ty])
    (hfloat : ty.elem.isFloat = true) :
    SelectionRouted (.ofOrder literal div) op xs ty ↔
      (op = .clip → ∀ i, InBounds i ty.shape → ¬ CrossedBelow xs i) := by
  have htyped := selectionTyped_of_inferCallResults hop hok
  generalize htys : xs.map Tensor.ty = tys at htyped
  cases htyped with
  | minimum hshape =>
      obtain ⟨x, y, rfl⟩ := exists_pair_of_map_ty htys
      exact iff_of_true (routed_minimum hfloat hshape) nofun
  | maximum hshape =>
      obtain ⟨x, y, rfl⟩ := exists_pair_of_map_ty htys
      exact iff_of_true (routed_maximum hfloat hshape) nofun
  | clip hinner houter =>
      obtain ⟨x, y, z, rfl⟩ := exists_triple_of_map_ty htys
      exact ⟨fun h _ i hi => not_crossedBelow_of_routed hfloat hinner houter h hi,
        fun h => routed_clip hfloat hinner houter (h rfl)⟩
  | where_ hshape hcond =>
      obtain ⟨w, x, y, rfl⟩ := exists_triple_of_map_ty htys
      exact iff_of_true (routed_where hfloat hshape hcond) nofun

/-- A value, a lower and an upper bound, each a scalar. -/
def scalarBounds (value low high : ℤ) : List (Tensor (Entry ℤ)) :=
  [⟨⟨.f32, []⟩, fun _ => number value⟩, ⟨⟨.f32, []⟩, fun _ => number low⟩,
    ⟨⟨.f32, []⟩, fun _ => number high⟩]

theorem selectionRouted_iff_scalars :
    SelectionRouted (.ofOrder (fun _ => 0) Int.tdiv) .clip (scalarBounds 5 0 3) ⟨.f32, []⟩ ↔
      (CallOp.clip = .clip → ∀ i, InBounds i [] → ¬ CrossedBelow (scalarBounds 5 0 3) i) :=
  selectionRouted_iff (fun _ => 0) Int.tdiv (by decide) rfl rfl

/-- Bounds of two and zero: the value one is clipped to two, and the rule sends its
entry to the upper bound. -/
theorem not_selectionRouted_crossed :
    inferCallResults .clip ((scalarBounds 1 2 0).map Tensor.ty) = .ok [⟨.f32, []⟩] ∧
      ¬ SelectionRouted (.ofOrder (fun _ => 0) Int.tdiv) .clip (scalarBounds 1 2 0)
        ⟨.f32, []⟩ := by
  refine ⟨rfl, fun h => ?_⟩
  have hshape : broadcastShapeSlices [] [] = .ok [] := rfl
  have hfloat : ElementType.f32.isFloat = true := rfl
  refine not_crossedBelow_of_routed hfloat hshape hshape h .nil ⟨?_, ?_⟩
  · show (0 : ℤ) < 2
    decide
  · show (0 : ℤ) < 1
    decide

end Knok.Autograd
