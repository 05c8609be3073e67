import Mathlib
import Knok.Autograd.Adjoint.Pool

/-!
# Gradients of extremes

`max_pool2d`, `max` and `min` return one entry of every window; the windows of a
reduction are its groups.  Their rules compare the entries with the forward result, so
an entry receives the gradients of all windows over it whose result it equals, and ties
duplicate them.  `ptp` is a maximum minus a minimum, and its rule takes both again.

### Design decisions

* **The result is read, not recomputed.**  The rules of `max_pool2d`, `max` and `min`
  compare with the variable of the node, whatever it holds.
* **Ranges.**  The rule of `ptp` compares with a maximum and a minimum of its own, so
  what an entry receives is said with the order alone.
-/

namespace Knok.Autograd

open Arrays Control

universe u

/-! ## Equality masks -/

section Masks

variable {R : Type u} [CommRing R] {N : Numbers R} {calls : Calls (Tensor (Entry R))}
  {values : Env (Tensor (Entry R))} {lhs rhs grad : Expr} {elem : ElementType} {shape : List ℕ}
  {x y g : List ℕ → Entry R}

/-- Entries of the gradient where two values are equal. -/
theorem evaluates_maskEqual
    (hx : Evaluates N.arithmetic calls values lhs ⟨elem, shape⟩ x)
    (hy : Evaluates N.arithmetic calls values rhs ⟨elem, shape⟩ y)
    (hg : Evaluates N.arithmetic calls values grad ⟨elem, shape⟩ g) :
    Evaluates N.arithmetic calls values (maskGrad (call .equal [lhs, rhs]) grad) ⟨elem, shape⟩
      fun i => if N.equalAt elem (x i) (y i) then g i else 0 := by
  have hshape := broadcastShapeSlices_eq_right_iff.mpr (broadcastsTo_refl shape)
  have hequal : Decides N calls values (call .equal [lhs, rhs]) shape
      fun i => N.equalAt elem (x i) (y i) :=
    (decides_comparison (inferCallResults_equal hshape) rfl (fun _ _ _ => rfl) hshape hx hy).congr
      fun i hi => by rw [broadcastIndex_self hi]
  refine (hequal.mask (broadcastsTo_refl shape) hg).congr fun i hi => ?_
  rw [broadcastIndex_self hi]

end Masks

/-! ## Pooling -/

section Pooling

variable {R : Type u} [CommRing R] {N : Numbers R} {options : Pool2dOptions}
  {inputTy ty : TensorType} {elem : ElementType} {d : ImageSizes}
  {env : String → Option TensorType} {node : Node} {input grad : Expr}
  {calls : Calls (Tensor (Entry R))} {values : Env (Tensor (Entry R))}
  {g x y : List ℕ → Entry R}

/-- **The rule of `max_pool2d`**: an entry receives the gradient of every window over it
whose result it equals. -/
theorem maxPool2d_gradient (h : Pool2dTypes inputTy ty options elem d)
    (hfit : options.ExtentsFit d) (hfloat : elem.isFloat = true) (hdims : UsizeDims inputTy.shape)
    (hnode : node.ty = ty) (hinput : exprTy env input = .ok inputTy)
    (hg : Evaluates N.arithmetic calls values grad ty g)
    (hx : Evaluates N.arithmetic calls values input inputTy x)
    (hy : Evaluates N.arithmetic calls values (.var node.name) ty y) :
    ∃ gx : Expr, reverseCall env node (.maxPool2d options) [input] grad = .ok [(input, gx)] ∧
      Evaluates N.arithmetic calls values gx inputTy fun j =>
        ∑ i ∈ windowsOver options.window inputTy.shape options.kernelShape ty.shape j,
          if N.equalAt elem (x j) (y i) then g i else 0 := by
  have htyDims := h.usizeDims hdims
  have hresult : node.ty.elem.isFloat = true := by
    rw [hnode, h.ty_eq]
    exact hfloat
  have hstops : callStopsGradient (.maxPool2d options) node.ty = false := by
    show (!node.ty.elem.isFloat || false) = false
    rw [hresult]
    rfl
  obtain ⟨outRows, outCols, hty⟩ : ∃ outRows outCols,
      ty = ⟨elem, d.output outRows outCols⟩ := ⟨_, _, h.ty_eq⟩
  obtain rfl := h.input_ty
  subst hty
  have hsum := evaluates_poolPieces h hfit rfl hdims hx fun oh hoh ow how ih hih iw hiw =>
    evaluates_maskEqual
      (@evaluates_poolOutputUnit _ _ _ _ _ _ d d.rows d.cols _ _ _ _ hdims hih hiw hx)
      (evaluates_poolOutputUnit htyDims hoh how hy) (evaluates_poolOutputUnit htyDims hoh how hg)
  refine ⟨_, ?_, hsum.congr fun j hj => ?_⟩
  · simp only [reverseCall, hstops]
    show (exprTy env input).bind _ = _
    rw [hinput, hnode]
    rfl
  · rw [pooledBack_eq_windowsOver h.dilation_pos rfl rfl]
    refine Finset.sum_congr rfl fun i hi => ?_
    obtain ⟨hi, k, -, hsource⟩ := Finset.mem_filter.mp hi
    obtain ⟨hbatch, hchannel⟩ := Window.getD_of_source rfl hsource
    obtain ⟨b, p, q, c, rfl, -, -, -, -⟩ := d.exists_position (mem_box.mp hi)
    obtain ⟨b', r, s, c', rfl, -, -, -, -⟩ := d.exists_position hj
    obtain rfl : b = b' := hbatch
    obtain rfl : c = c' := hchannel
    rfl

end Pooling

/-! ## Reductions -/

section Reductions

variable {R : Type u} [CommRing R] {N : Numbers R} {op : CallOp} {axis : AxisSpec}
  {elem : ElementType} {shape : List ℕ} {env : String → Option TensorType} {node : Node}
  {input grad : Expr} {calls : Calls (Tensor (Entry R))} {values : Env (Tensor (Entry R))}
  {g x y : List ℕ → Entry R}

/-- **The rule of `max` and `min`**: an entry receives the gradient of its group if it
equals the result there. -/
theorem maxMin_gradient (hop : op = .max axis ∨ op = .min axis) (hfits : axis.Fits shape)
    (hfloat : elem.isFloat = true) (hnode : node.ty = ⟨elem, axis.reduce shape⟩)
    (hinput : exprTy env input = .ok ⟨elem, shape⟩)
    (hg : Evaluates N.arithmetic calls values grad ⟨elem, axis.reduce shape⟩ g)
    (hx : Evaluates N.arithmetic calls values input ⟨elem, shape⟩ x)
    (hy : Evaluates N.arithmetic calls values (.var node.name) ⟨elem, axis.reduce shape⟩ y) :
    ∃ gx : Expr, reverseCall env node op [input] grad = .ok [(input, gx)] ∧
      Evaluates N.arithmetic calls values gx ⟨elem, shape⟩ fun j =>
        if N.equalAt elem (x j) (y (axis.reduce j)) then g (axis.reduce j) else 0 := by
  have hmask := evaluates_maskEqual hx (evaluates_expandReductionGrad hfits hy)
    (evaluates_expandReductionGrad hfits hg)
  refine ⟨_, ?_, hmask⟩
  rcases hop with rfl | rfl
  all_goals
    simp only [reverseCall, callStopsGradient, hnode, hfloat, Bool.not_true]
    show (exprTy env input).bind _ = _
    rw [hinput]
    rfl

/-- The type rules of `max` and `min`. -/
theorem inferCallResults_extreme (hop : op = .max axis ∨ op = .min axis)
    (helem : elem.isNumeric = true) (hfits : axis.Fits shape)
    (hcount : axis.usizeCount shape ≠ 0) :
    inferCallResults op [⟨elem, shape⟩] = .ok [⟨elem, axis.reduce shape⟩] := by
  rcases hop with rfl | rfl
  all_goals
    simp only [inferCallResults, except_bind_eq_ok_iff, expectUnary_eq_ok_iff,
      except_pure_eq_ok_iff, expectOrderedElement, failIf_eq_ok_iff, exists_const,
      expectNonEmptyReduction_eq_ok_iff, reductionOutputType_eq_ok_iff]
    refine ⟨_, rfl, ?_, ⟨hfits, hcount⟩, _, ⟨hfits, rfl⟩, rfl⟩
    rw [helem, Bool.true_or, Bool.not_true]

/-- **A maximum or a minimum of every group**: the entries that equal it are those of the
highest rank. -/
theorem exists_extreme {α : Type u} [LinearOrder α] (rank : Entry R → α)
    {pick : ElementType → Entry R → Entry R → Entry R} (hop : op = .max axis ∨ op = .min axis)
    (hentry : ∀ (t : Tensor (Entry R)) (i : List ℕ),
      N.arithmetic.callEntry op [t] 0 i = Numbers.pickAt (pick t.ty.elem) (t.group axis i))
    (hpick : ∀ es : List (Entry R), es ≠ [] → Numbers.pickAt (pick elem) es ∈ es ∧
      ∀ e ∈ es, rank e ≤ rank (Numbers.pickAt (pick elem) es))
    (hrank : ∀ a b, rank a = rank b ↔ a.1 = b.1) (helem : elem.isNumeric = true)
    (hfits : axis.Fits shape) (hcount : axis.usizeCount shape ≠ 0)
    (hx : Evaluates N.arithmetic calls values input ⟨elem, shape⟩ x) :
    ∃ m, Evaluates N.arithmetic calls values (call op [input]) ⟨elem, axis.reduce shape⟩ m ∧
      ∀ j, InBounds j shape → ((x j).1 = (m (axis.reduce j)).1 ↔
        ∀ k ∈ members shape axis.reduce (axis.reduce j), rank (x k) ≤ rank (x j)) := by
  obtain ⟨⟨ty, entry⟩, ht, hty, hvalue⟩ := hx
  obtain rfl : ty = ⟨elem, shape⟩ := hty
  have hstatic : op.isStaticCreation = false := by
    rcases hop with rfl | rfl
    all_goals rfl
  have hcall := evalTensor_call_unary hstatic (inferCallResults_extreme hop helem hfits hcount) ht
  refine ⟨_, ⟨_, hcall, rfl, fun _ _ => rfl⟩, fun j hj => ?_⟩
  -- the entries of the group of `j`
  have hgroup : ∀ a, a ∈ Tensor.group ⟨⟨elem, shape⟩, entry⟩ axis (axis.reduce j) ↔
      ∃ k ∈ members shape axis.reduce (axis.reduce j), x k = a := by
    intro a
    rw [Tensor.mem_group hfits (axis.inBounds_reduce hj)]
    exact exists_congr fun k => and_congr_right fun hk => by
      rw [← hvalue k (mem_members.mp hk).1]
  have hself : x j ∈ Tensor.group ⟨⟨elem, shape⟩, entry⟩ axis (axis.reduce j) :=
    (hgroup _).mpr ⟨j, mem_members.mpr ⟨hj, rfl⟩, rfl⟩
  obtain ⟨hmem, hupper⟩ := hpick _ (List.ne_nil_of_mem hself)
  show (x j).1 = (N.arithmetic.callEntry op [⟨⟨elem, shape⟩, entry⟩] 0 (axis.reduce j)).1 ↔ _
  rw [hentry, ← hrank]
  constructor
  · intro heq k hk
    rw [heq]
    exact hupper _ ((hgroup _).mpr ⟨k, hk, rfl⟩)
  · intro hgreatest
    obtain ⟨k, hk, heq⟩ := (hgroup _).mp hmem
    exact le_antisymm (hupper _ hself) (heq ▸ hgreatest k hk)

variable [LinearOrder R] {literal : String → R} {div : R → R → R}

/-- What an entry receives from a range: the gradient of its group if it is a greatest
entry there, and its opposite if it is a least one. -/
def rangeShare (axis : AxisSpec) (shape : List ℕ) (x g : List ℕ → Entry R) (j : List ℕ) :
    Entry R :=
  (if ∀ k ∈ members shape axis.reduce (axis.reduce j), (x k).1 ≤ (x j).1
    then g (axis.reduce j) else 0) -
  if ∀ k ∈ members shape axis.reduce (axis.reduce j), (x j).1 ≤ (x k).1
    then g (axis.reduce j) else 0

/-- **The rule of `ptp`** sends the gradient to the greatest and its opposite to the least
entries; one entry alone receives nothing, and none is emitted for a scalar. -/
theorem ptp_gradient (hfits : axis.Fits shape) (hcount : axis.usizeCount shape ≠ 0)
    (hfloat : elem.isFloat = true) (hnode : node.ty = ⟨elem, axis.reduce shape⟩)
    (hinput : exprTy env input = .ok ⟨elem, shape⟩)
    (hg : Evaluates (Numbers.ofOrder literal div).arithmetic calls values grad
      ⟨elem, axis.reduce shape⟩ g)
    (hx : Evaluates (Numbers.ofOrder literal div).arithmetic calls values input ⟨elem, shape⟩ x) :
    (∃ gx : Expr, reverseCall env node (.ptp axis) [input] grad = .ok [(input, gx)] ∧
      Evaluates (Numbers.ofOrder literal div).arithmetic calls values gx ⟨elem, shape⟩
        (rangeShare axis shape x g)) ∨
    reverseCall env node (.ptp axis) [input] grad = .ok [] ∧
      ∀ j, InBounds j shape → rangeShare axis shape x g j = 0 := by
  have hnumeric := ElementType.isNumeric_of_isFloat hfloat
  have hrule : reverseCall env node (.ptp axis) [input] grad =
      if shape.length = 0 ∧ axis = .all then .ok [] else .ok [(input, binary .add
        (maskGrad (call .equal [input, expandReductionGrad (call (.max axis) [input])
          ⟨elem, axis.reduce shape⟩ ⟨elem, shape⟩ axis])
          (expandReductionGrad grad ⟨elem, axis.reduce shape⟩ ⟨elem, shape⟩ axis))
        (maskGrad (call .equal [input, expandReductionGrad (call (.min axis) [input])
          ⟨elem, axis.reduce shape⟩ ⟨elem, shape⟩ axis])
          (neg (expandReductionGrad grad ⟨elem, axis.reduce shape⟩ ⟨elem, shape⟩ axis))))] := by
    simp only [reverseCall, callStopsGradient, hnode, hfloat, Bool.not_true]
    show (exprTy env input).bind _ = _
    rw [hinput]
    rfl
  rw [hrule]
  by_cases hscalar : shape.length = 0 ∧ axis = .all
  · rw [if_pos hscalar]
    refine .inr ⟨rfl, fun j hj => ?_⟩
    obtain ⟨hnil, rfl⟩ := hscalar
    obtain rfl := List.length_eq_zero_iff.mp hnil
    -- the only member of the group is the entry itself
    have hself : ∀ k ∈ members [] AxisSpec.all.reduce (AxisSpec.all.reduce j), k = j := by
      intro k hk
      have hk := (mem_members.mp hk).1
      rw [List.length_eq_zero_iff.mp hk.length_eq, List.length_eq_zero_iff.mp hj.length_eq]
    unfold rangeShare
    rw [if_pos fun k hk => (hself k hk ▸ le_rfl), if_pos fun k hk => (hself k hk ▸ le_rfl), sub_self]
  · rw [if_neg hscalar]
    have hspread := evaluates_expandReductionGrad hfits hg
    obtain ⟨most, hmost, hgreatest⟩ := exists_extreme Prod.fst (.inl rfl) (fun _ _ => rfl)
      (fun es hes => Numbers.pickAt_maximumAt hfloat literal div hes) (fun _ _ => Iff.rfl)
      hnumeric hfits hcount hx
    obtain ⟨least, hleast, hsmallest⟩ := exists_extreme (fun e => OrderDual.toDual e.1) (.inr rfl)
      (fun _ _ => rfl) (fun es hes => Numbers.pickAt_minimumAt hfloat literal div hes)
      (fun _ _ => OrderDual.toDual_inj) hnumeric hfits hcount hx
    refine .inl ⟨_, rfl, ((evaluates_maskEqual hx (evaluates_expandReductionGrad hfits hmost)
      hspread).add hnumeric (evaluates_maskEqual hx (evaluates_expandReductionGrad hfits hleast)
        (hspread.neg hnumeric))).congr fun j hj => ?_⟩
    have hopposite : ∀ (c : Prop) [Decidable c] (a : Entry R),
        (if c then -a else 0) = -if c then a else 0 := by
      intro c _ a
      rw [apply_ite Neg.neg, neg_zero]
    simp only [Numbers.equalAt_ofOrder hfloat, decide_eq_true_eq]
    rw [hopposite, if_congr (hgreatest j hj) rfl rfl, if_congr (hsmallest j hj) rfl rfl]
    exact (sub_eq_add_neg _ _).symm

end Reductions

/-! ## The rules -/

/-- The operations that return an entry of every window, and the difference of two. -/
def isExtreme : CallOp → Bool
  | .maxPool2d _ | .max _ | .min _ | .ptp _ => true
  | _ => false

/-- The windows over an entry of the operand, each once. -/
def extremeWindows (op : CallOp) (inputTy ty : TensorType) (j : List ℕ) : Finset (List ℕ) :=
  match op with
  | .maxPool2d options => windowsOver options.window inputTy.shape options.kernelShape ty.shape j
  | .max axis | .min axis => {axis.reduce j}
  | _ => ∅

/-- What an entry receives: the gradients of the windows over it whose result it equals. -/
def extremeShare {R : Type u} [CommRing R] [LinearOrder R] (op : CallOp) (inputTy ty : TensorType)
    (x y g : List ℕ → Entry R) (j : List ℕ) : Entry R :=
  match op with
  | .ptp axis => rangeShare axis inputTy.shape x g j
  | op => ∑ i ∈ extremeWindows op inputTy ty j, if (x j).1 = (y i).1 then g i else 0

/-- The rule of an extreme follows the equality law, over every linearly ordered
commutative ring; a rule that emits nothing has nothing to send. -/
def ExtremeGradientExact (op : CallOp) (inputTy ty : TensorType) : Prop :=
  ∀ (R : Type u) [CommRing R] [LinearOrder R] (literal : String → R) (div : R → R → R)
    (env : String → Option TensorType) (node : Node) (input : Expr), node.ty = ty →
    exprTy env input = .ok inputTy →
    ∀ (calls : Calls (Tensor (Entry R))) (values : Env (Tensor (Entry R))) (grad : Expr)
      (g x y : List ℕ → Entry R),
      Evaluates (Numbers.ofOrder literal div).arithmetic calls values grad ty g →
      Evaluates (Numbers.ofOrder literal div).arithmetic calls values input inputTy x →
      Evaluates (Numbers.ofOrder literal div).arithmetic calls values (.var node.name) ty y →
      (∃ gx : Expr, reverseCall env node op [input] grad = .ok [(input, gx)] ∧
        Evaluates (Numbers.ofOrder literal div).arithmetic calls values gx inputTy
          (extremeShare op inputTy ty x y g)) ∨
      reverseCall env node op [input] grad = .ok [] ∧
        ∀ j, InBounds j inputTy.shape → extremeShare op inputTy ty x y g j = 0

section Rules

variable {op : CallOp} {options : Pool2dOptions} {axis : AxisSpec} {inputTy ty : TensorType}

theorem extremeGradientExact_maxPool2d
    (hok : inferCallResults (.maxPool2d options) [inputTy] = .ok [ty])
    (hfloat : ty.elem.isFloat = true) (hdims : UsizeDims inputTy.shape)
    (hfit : options.ExtentsFit inputTy.imageSizes) :
    ExtremeGradientExact.{u} (.maxPool2d options) inputTy ty := by
  intro R _ _ literal div env node input hnode hinput calls values grad g x y hg hx hy
  obtain ⟨elem, d, h⟩ := Pool2dTypes.of_maxPool2d hok
  rw [h.imageSizes_eq] at hfit
  rw [h.ty_eq] at hfloat
  have helem : elem.isFloat = true := hfloat
  obtain ⟨gx, hreverse, hgx⟩ := maxPool2d_gradient h hfit helem hdims hnode hinput hg hx hy
  refine .inl ⟨gx, hreverse, hgx.congr fun j _ => Finset.sum_congr rfl fun i _ => ?_⟩
  rw [Numbers.equalAt_ofOrder helem]
  exact if_congr decide_eq_true_iff rfl rfl

theorem extremeGradientExact_reduction (hop : op = .max axis ∨ op = .min axis)
    (hok : inferCallResults op [inputTy] = .ok [ty]) (hfloat : ty.elem.isFloat = true) :
    ExtremeGradientExact.{u} op inputTy ty := by
  intro R _ _ literal div env node input hnode hinput calls values grad g x y hg hx hy
  have haxis : op.reductionAxis = some axis := by
    rcases hop with rfl | rfl
    all_goals rfl
  have h := reductionTypes_of_inferCallResults haxis hok
  obtain ⟨elem, shape⟩ := inputTy
  obtain rfl := h.ty_eq
  have hshare : ∀ j, extremeShare op ⟨elem, shape⟩ ⟨elem, axis.reduce shape⟩ x y g j =
      if (x j).1 = (y (axis.reduce j)).1 then g (axis.reduce j) else 0 := by
    intro j
    rcases hop with rfl | rfl
    all_goals exact Finset.sum_singleton _ _
  obtain ⟨gx, hreverse, hgx⟩ := maxMin_gradient hop h.fits hfloat hnode hinput hg hx hy
  refine .inl ⟨gx, hreverse, hgx.congr fun j _ => ?_⟩
  rw [hshare, Numbers.equalAt_ofOrder hfloat]
  exact if_congr decide_eq_true_iff rfl rfl

theorem extremeGradientExact_ptp (hok : inferCallResults (.ptp axis) [inputTy] = .ok [ty])
    (hfloat : ty.elem.isFloat = true) : ExtremeGradientExact.{u} (.ptp axis) inputTy ty := by
  intro R _ _ literal div env node input hnode hinput calls values grad g x y hg hx _
  have h := reductionTypes_of_inferCallResults rfl hok
  obtain ⟨elem, shape⟩ := inputTy
  obtain rfl := h.ty_eq
  exact ptp_gradient h.fits (h.nonempty rfl) hfloat hnode hinput hg hx

end Rules

/-- **Extremes follow the equality law.**  Where no extent of a window wraps, the rules
send every entry of the gradient to the entries that equal the result, and the taps of a
pooling lie in the padded image; where its sizes also fit signed attributes, the lowering
of `max_pool2d` returns the greatest entries. -/
theorem extremes_follow_equality {op : CallOp} {inputTy ty : TensorType} (hop : isExtreme op = true)
    (hok : inferCallResults op [inputTy] = .ok [ty]) (hdims : UsizeDims inputTy.shape)
    (hfit : ∀ options, op = .maxPool2d options → options.ExtentsFit inputTy.imageSizes) :
    (ty.elem.isFloat = true → ExtremeGradientExact.{u} op inputTy ty) ∧
      ∀ options, op = .maxPool2d options → PoolReadsInside options inputTy ty ∧
        (Lowering.PoolTypesFit options inputTy → Lowering.MaxPool2dLowers options inputTy ty) := by
  refine ⟨fun hfloat => ?_, ?_⟩
  · cases op with
    | maxPool2d options => exact extremeGradientExact_maxPool2d hok hfloat hdims (hfit options rfl)
    | max axis => exact extremeGradientExact_reduction (.inl rfl) hok hfloat
    | min axis => exact extremeGradientExact_reduction (.inr rfl) hok hfloat
    | ptp axis => exact extremeGradientExact_ptp hok hfloat
    | _ => cases hop
  · rintro options rfl
    refine ⟨?_, Lowering.maxPool2d_lowers hok⟩
    obtain ⟨elem, d, h⟩ := Pool2dTypes.of_maxPool2d hok
    exact h.readsInside (hfit options rfl)

theorem extremes_follow_equality_corner :
    ((⟨.f32, [1, 2, 2, 1]⟩ : TensorType).elem.isFloat = true →
        ExtremeGradientExact.{0} (.maxPool2d cornerOptions) ⟨.f32, [1, 3, 2, 1]⟩
          ⟨.f32, [1, 2, 2, 1]⟩) ∧
      ∀ options, CallOp.maxPool2d cornerOptions = .maxPool2d options →
        PoolReadsInside options ⟨.f32, [1, 3, 2, 1]⟩ ⟨.f32, [1, 2, 2, 1]⟩ ∧
          (Lowering.PoolTypesFit options ⟨.f32, [1, 3, 2, 1]⟩ →
            Lowering.MaxPool2dLowers options ⟨.f32, [1, 3, 2, 1]⟩ ⟨.f32, [1, 2, 2, 1]⟩) :=
  extremes_follow_equality rfl rfl (by decide) fun _ heq =>
    CallOp.maxPool2d.inj heq ▸ ⟨by decide, by decide, by decide, by decide⟩

/-- The type rule accepts a stride that no index attribute holds; the lowering fails. -/
theorem not_lowers_maxPool2d_wide :
    inferCallResults (.maxPool2d Lowering.wideStride) [⟨.f32, [1, 1, 1, 1]⟩] =
        .ok [⟨.f32, [1, 1, 1, 1]⟩] ∧
      ∀ (maximum : NanMaximum ElementType.f32.isNan ElementType.f32.scale)
        (input : Lowering.Value (BitVec ElementType.f32.width))
        (y : List ℕ → BitVec ElementType.f32.width), input.ty = ⟨.f32, [1, 1, 1, 1]⟩ →
          ¬ Lowering.Lowers (Lowering.maxPool2d maximum input Lowering.wideStride)
            ⟨.f32, [1, 1, 1, 1]⟩ y := by
  refine ⟨by decide, ?_⟩
  rintro maximum input y - ⟨value, hvalue, -, -⟩
  unfold Lowering.maxPool2d Lowering.maxPool2dOf at hvalue
  simp only [except_bind_eq_ok_iff] at hvalue
  obtain ⟨padded, -, ty, -, hemit⟩ := hvalue
  exact Lowering.emitPool2dGeneric_wide_ne_ok _ hemit

end Knok.Autograd
