import Mathlib
import Knok.NumberRules
import Knok.ReductionRule
import Knok.Autograd.Adjoint.Movement

/-!
# Gradients of reductions

The rules spread the gradient of a reduction over its groups and multiply it with
the slope of the reduction at every entry.  The slope is compared with the formal
derivative, which is read off dual numbers.

### Design decisions

* **One definition of the reductions.**  Sums, products, means and variances are
  defined over any algebra; over the numbers they are what the operations compute,
  over dual numbers they give the derivative.
* **Counts.**  The rules divide by the number of combined entries, which is
  multiplied up in 64 bits; this is the only way in which they can fail.
-/

namespace Knok.Autograd

open Arrays Control

universe u

/-! ## Spreading over a group -/

section Spread

variable {R : Type u} [CommRing R] {A : Arithmetic R} {calls : Calls (Tensor R)}
  {values : Env (Tensor R)} {e : Expr} {elem : ElementType} {shape : List ℕ} {x : List ℕ → R}

/-- Reading through a unit axis. -/
theorem broadcastIndex_set_one {axis : ℕ} {j : List ℕ} (haxis : axis < shape.length)
    (hj : InBounds j shape) : broadcastIndex (shape.set axis 1) j = j.set axis 0 := by
  have hlen := hj.length_eq
  have hle : (shape.set axis 1).length ≤ j.length := by rw [List.length_set, hlen]
  refine ext_getD (by rw [length_broadcastIndex hle, List.length_set, List.length_set, hlen])
    fun other hother => ?_
  rw [length_broadcastIndex hle] at hother
  rw [getD_broadcastIndex hle hother, getD_set_of_lt haxis, getD_set_of_lt (hlen ▸ haxis),
    List.length_set, hlen, Nat.sub_self, Nat.zero_add]
  rw [List.length_set] at hother
  by_cases heq : other = axis
  · rw [if_pos (by rw [if_pos heq]), if_pos heq]
  · rw [if_neg heq, if_neg heq]
    split_ifs with hone
    · have hlt := hj.getD_lt hother
      omega
    · rfl

theorem broadcastsTo_set_one {axis : ℕ} : BroadcastsTo (shape.set axis 1) shape := by
  refine broadcastsTo_iff_getD.mpr ⟨by rw [List.length_set], fun other hother => ?_⟩
  rw [List.length_set] at hother ⊢
  rw [Nat.sub_self, Nat.zero_add, getD_set]
  split_ifs
  · exact .inr rfl
  · exact .inl rfl

/-- **Every member of a group receives the entry of the group.** -/
theorem evaluates_expandReductionGrad {axis : AxisSpec} (hfits : axis.Fits shape)
    (h : Evaluates A calls values e ⟨elem, axis.reduce shape⟩ x) :
    Evaluates A calls values
      (expandReductionGrad e ⟨elem, axis.reduce shape⟩ ⟨elem, shape⟩ axis) ⟨elem, shape⟩
      fun j => x (axis.reduce j) := by
  cases axis with
  | all =>
      refine (evaluates_broadcastIfNeeded (broadcastsTo_nil shape) h).congr fun j _ => ?_
      exact congrArg x (List.length_eq_zero_iff.mp (by rw [length_broadcastIndex (Nat.zero_le _)]
                                                       rfl))
  | one axis =>
      have haxis : axis < shape.length := hfits
      have hreshaped : Evaluates A calls values (call (.reshape ⟨elem, shape.set axis 1⟩) [e])
          ⟨elem, shape.set axis 1⟩ fun i => x (i.eraseIdx axis) :=
        (h.reshape (prod_set_one haxis).symm).congr fun i hi =>
          congrArg x (unravel_eraseIdx_ravel_set_one haxis hi)
      have hspread := evaluates_broadcastIfNeeded broadcastsTo_set_one hreshaped
      have hunsqueezed : (shape.eraseIdx axis).insertIdx axis 1 = shape.set axis 1 :=
        insertIdx_eraseIdx_self haxis 1
      have hexpand : expandReductionGrad e ⟨elem, (AxisSpec.one axis).reduce shape⟩ ⟨elem, shape⟩
          (.one axis) = broadcastIfNeeded (call (.reshape ⟨elem, shape.set axis 1⟩) [e])
            ⟨elem, shape.set axis 1⟩ ⟨elem, shape⟩ := by
        rw [← hunsqueezed]
        rfl
      rw [hexpand]
      refine hspread.congr fun j hj => congrArg x ?_
      rw [broadcastIndex_set_one haxis hj, List.eraseIdx_set_eq]
      rfl

end Spread

/-! ## Reductions and their slopes -/

section Reductions

variable {K : Type u} [Field K]

/-- The reductions, over any algebra. -/
def reduction (K : Type u) [Field K] {A : Type u} [CommRing A] [Algebra K A] (op : CallOp)
    (shape : List ℕ) (x : List ℕ → A) (i : List ℕ) : A :=
  match op with
  | .sum axis => ∑ j ∈ members shape axis.reduce i, x j
  | .prod axis => ∏ j ∈ members shape axis.reduce i, x j
  | .mean axis => Arrays.mean K (members shape axis.reduce i) x
  | .var axis => variance K (members shape axis.reduce i) x
  | _ => 0

/-- The formal derivative of a reduction at `x` in the direction `v`. -/
def formalDerivative (op : CallOp) (shape : List ℕ) (x v : List ℕ → K) (i : List ℕ) : K :=
  (reduction K op shape (fun j => moving (x j) (v j)) i).snd

/-- The slope of a reduction, with the count that it divides by. -/
def slope (op : CallOp) (count : K) (shape : List ℕ) (x : List ℕ → K) (i j : List ℕ) : K :=
  match op with
  | .sum _ => 1
  | .prod axis => (∏ k ∈ members shape axis.reduce i, x k) / x j
  | .mean _ => count⁻¹
  | .var axis => 2 * (x j - Arrays.mean K (members shape axis.reduce i) x) / count
  | _ => 0

/-- The reductions whose derivatives are compared. -/
def slopeAxis : CallOp → Option AxisSpec
  | .sum axis | .prod axis | .mean axis | .var axis => some axis
  | _ => none

/-- **The formal derivative is the sum of the slopes.** -/
theorem formalDerivative_eq [CharZero K] {op : CallOp} {axis : AxisSpec} {shape i : List ℕ}
    {x : List ℕ → K} (hop : slopeAxis op = some axis) (hfits : axis.Fits shape)
    (hi : InBounds i (axis.reduce shape))
    (hx : op = .prod axis → ∀ j, InBounds j shape → x j ≠ 0) (v : List ℕ → K) :
    formalDerivative op shape x v i =
      ∑ j ∈ members shape axis.reduce i, slope op (axis.count shape : K) shape x i j * v j := by
  have hcard := AxisSpec.card_members hfits hi
  unfold formalDerivative
  cases op with
  | sum axis' =>
      cases hop
      simp only [reduction, slope, snd_sum_moving, one_mul]
  | prod axis' =>
      cases hop
      exact snd_prod_moving _ _ _ fun j hj => hx rfl j (mem_members.mp hj).1
  | mean axis' =>
      cases hop
      rw [reduction, mean_moving, snd_moving, Arrays.mean, hcard, smul_eq_mul, Finset.mul_sum]
      rfl
  | var axis' =>
      cases hop
      rw [reduction, snd_variance_moving, hcard]
      rfl
  | _ => cases hop

/-- **The transposed formal derivative.** -/
theorem inner_formalDerivative [CharZero K] {op : CallOp} {axis : AxisSpec} {shape : List ℕ}
    {x : List ℕ → K} (hop : slopeAxis op = some axis) (hfits : axis.Fits shape)
    (hx : op = .prod axis → ∀ j, InBounds j shape → x j ≠ 0) (g v : List ℕ → K) :
    inner (axis.reduce shape) g (formalDerivative op shape x v) =
      inner shape (fun j => g (axis.reduce j) *
        slope op (axis.count shape : K) shape x (axis.reduce j) j) v :=
  (inner_congr (fun _ _ => rfl) fun _ hi => formalDerivative_eq hop hfits hi hx v).trans
    (inner_members (fun _ hj => axis.inBounds_reduce hj) _ _ _)

variable {less equal : K → K → Bool} {op : CallOp} {axis : AxisSpec} {elem : ElementType}
  {shape i : List ℕ} {x : List ℕ → Entry K}

theorem meanAt_eq (hfits : axis.Fits shape) (hi : InBounds i (axis.reduce shape)) :
    (Numbers.ofField less equal).meanAt ⟨⟨elem, shape⟩, x⟩ axis i =
      Arrays.mean K (members shape axis.reduce i) fun j => (x j).1 := by
  show (Tensor.sum ⟨⟨elem, shape⟩, x⟩ axis i).1 / (axis.count shape : ℕ) = _
  rw [Tensor.sum_eq_members _ hfits hi, Prod.fst_sum, Arrays.mean,
    AxisSpec.card_members hfits hi, smul_eq_mul, div_eq_inv_mul]

/-- **What the operations compute.** -/
theorem callEntry_eq_reduction (hop : slopeAxis op = some axis) (hfits : axis.Fits shape)
    (hi : InBounds i (axis.reduce shape)) :
    ((Numbers.ofField less equal).arithmetic.callEntry op [⟨⟨elem, shape⟩, x⟩] 0 i).1 =
      reduction K op shape (fun j => (x j).1) i := by
  cases op with
  | sum axis' =>
      cases hop
      show (Tensor.sum ⟨⟨elem, shape⟩, x⟩ axis i).1 = _
      rw [Tensor.sum_eq_members _ hfits hi, Prod.fst_sum]
      rfl
  | prod axis' =>
      cases hop
      show (Tensor.prod ⟨⟨elem, shape⟩, x⟩ axis i).1 = _
      rw [Tensor.prod_eq_members _ hfits hi, Prod.fst_prod]
      rfl
  | mean axis' =>
      cases hop
      exact @meanAt_eq K _ less equal axis elem shape i x hfits hi
  | var axis' =>
      cases hop
      let N : Numbers K := .ofField less equal
      have hmean := @meanAt_eq K _ less equal axis elem shape i (fun j => number
        (((x j).1 - N.meanAt ⟨⟨elem, shape⟩, x⟩ axis (axis.reduce j)) ^ 2)) hfits hi
      refine hmean.trans (mean_congr fun j hj => ?_)
      obtain ⟨-, rfl⟩ := mem_members.mp hj
      show ((x j).1 - N.meanAt ⟨⟨elem, shape⟩, x⟩ axis (axis.reduce j)) ^ 2 = _
      rw [meanAt_eq hfits hi]
  | _ => cases hop

end Reductions

/-! ## What the rules emit -/

section Emission

variable {K : Type u} [Field K] {less equal : K → K → Bool} {op : CallOp} {axis : AxisSpec}
  {elem : ElementType} {shape : List ℕ} {env : String → Option TensorType} {node : Node}
  {input grad e : Expr} {calls : Calls (Tensor (Entry K))} {values : Env (Tensor (Entry K))}
  {g x y : List ℕ → Entry K}

/-- Division by a count. -/
theorem evaluates_divCount (helem : elem.isFloat = true) (count : ℕ)
    (h : Evaluates (Numbers.ofField less equal).arithmetic calls values e ⟨elem, shape⟩ x) :
    ∃ z : List ℕ → Entry K,
      Evaluates (Numbers.ofField less equal).arithmetic calls values
        (binary .div e (scalar (floatText count) elem)) ⟨elem, shape⟩ z ∧
      ∀ i, (z i).1 = (x i).1 / count := by
  refine ⟨_, h.binary_left .div (ElementType.isNumeric_of_isFloat helem) (broadcastsTo_nil shape)
    (.const _ calls values (floatText count) elem), fun i => ?_⟩
  show (x i).1 / (if elem.isFloat then number (decimal (floatText count)) else _ : Entry K).1 = _
  rw [if_pos helem]
  exact congrArg ((x i).1 / ·) (decimal_count count)

/-- The type rule of `mean`. -/
theorem inferCallResults_mean (helem : elem.isFloat = true) (hfits : axis.Fits shape)
    (hcount : axis.usizeCount shape ≠ 0) :
    inferCallResults (.mean axis) [⟨elem, shape⟩] = .ok [⟨elem, axis.reduce shape⟩] := by
  simp only [inferCallResults, except_bind_eq_ok_iff, expectUnary_eq_ok_iff,
    except_pure_eq_ok_iff, expectFloat, failIf_eq_ok_iff, exists_const,
    expectNonEmptyReduction_eq_ok_iff, reductionOutputType_eq_ok_iff]
  refine ⟨_, rfl, ?_, ⟨hfits, hcount⟩, _, ⟨hfits, rfl⟩, rfl⟩
  rw [helem, Bool.not_true]

/-- The deviations from the mean. -/
theorem evaluates_centered (helem : elem.isFloat = true) (hfits : axis.Fits shape)
    (hcount : axis.usizeCount shape ≠ 0)
    (hx : Evaluates (Numbers.ofField less equal).arithmetic calls values input ⟨elem, shape⟩ x) :
    ∃ z : List ℕ → Entry K,
      Evaluates (Numbers.ofField less equal).arithmetic calls values
        (centered input ⟨elem, shape⟩ ⟨elem, axis.reduce shape⟩ axis) ⟨elem, shape⟩ z ∧
      ∀ j, InBounds j shape → (z j).1 =
        (x j).1 - Arrays.mean K (members shape axis.reduce (axis.reduce j)) fun j => (x j).1 := by
  let N : Numbers K := .ofField less equal
  have hmean : Evaluates N.arithmetic calls values (call (.mean axis) [input])
      ⟨elem, axis.reduce shape⟩ fun i => number (Arrays.mean K (members shape axis.reduce i)
        fun j => (x j).1) := by
    refine hx.call_unary (inferCallResults_mean helem hfits hcount) rfl fun t ht hentry i hi => ?_
    obtain ⟨ty, f⟩ := t
    obtain rfl : ty = ⟨elem, shape⟩ := ht
    show number (N.meanAt ⟨⟨elem, shape⟩, f⟩ axis i) = _
    rw [meanAt_eq hfits hi]
    exact congrArg number (mean_congr fun j hj => congrArg Prod.fst (hentry j (mem_members.mp hj).1))
  refine ⟨_, hx.sub (ElementType.isNumeric_of_isFloat helem)
    (evaluates_expandReductionGrad hfits hmean), fun j _ => rfl⟩

/-- What the rules of `sum`, `prod`, `mean` and `var` emit: the gradient of the group times
the slope, with the count as it is multiplied up. -/
theorem exists_reductionContributions (hop : slopeAxis op = some axis) (hfits : axis.Fits shape)
    (hfloat : elem.isFloat = true) (hnode : node.ty = ⟨elem, axis.reduce shape⟩)
    (hinput : exprTy env input = .ok ⟨elem, shape⟩)
    (hok : inferCallResults op [⟨elem, shape⟩] = .ok [⟨elem, axis.reduce shape⟩])
    (hg : Evaluates (Numbers.ofField less equal).arithmetic calls values grad
      ⟨elem, axis.reduce shape⟩ g)
    (hx : Evaluates (Numbers.ofField less equal).arithmetic calls values input ⟨elem, shape⟩ x)
    (hy : Evaluates (Numbers.ofField less equal).arithmetic calls values (.var node.name)
      ⟨elem, axis.reduce shape⟩
      ((Numbers.ofField less equal).arithmetic.callEntry op [⟨⟨elem, shape⟩, x⟩] 0)) :
    (∃ (gx : Expr) (a : List ℕ → Entry K),
      reverseCall env node op [input] grad = .ok [(input, gx)] ∧
      Evaluates (Numbers.ofField less equal).arithmetic calls values gx ⟨elem, shape⟩ a ∧
      ∀ j, InBounds j shape → (a j).1 = (g (axis.reduce j)).1 *
        slope op (axis.usizeCount shape : K) shape (fun j => (x j).1) (axis.reduce j) j) ∨
    op = .var .all ∧ shape = [] ∧ reverseCall env node op [input] grad = .ok [] := by
  have hnumeric := ElementType.isNumeric_of_isFloat hfloat
  have hspread := evaluates_expandReductionGrad hfits hg
  cases op with
  | sum axis' =>
      cases hop
      refine .inl ⟨_, _, ?_, hspread, fun j _ => (mul_one _).symm⟩
      simp only [reverseCall, callStopsGradient, hnode, hfloat, Bool.not_true]
      show (exprTy env input).bind _ = _
      rw [hinput]
      rfl
  | prod axis' =>
      cases hop
      have hquotient := (evaluates_expandReductionGrad hfits hy).div hnumeric hx
      refine .inl ⟨_, _, ?_, hspread.mul hnumeric hquotient, fun j hj => ?_⟩
      · simp only [reverseCall, callStopsGradient, hnode, hfloat, Bool.not_true]
        show (exprTy env input).bind _ = _
        rw [hinput]
        rfl
      · have hoperation : slopeAxis (.prod axis) = some axis := rfl
        have hoperation := @callEntry_eq_reduction K _ less equal _ _ elem _ _ x hoperation hfits
          (axis.inBounds_reduce hj)
        show (g (axis.reduce j)).1 * (_ / (x j).1) = _
        rw [hoperation]
        rfl
  | mean axis' =>
      cases hop
      obtain ⟨z, hz, hquotient⟩ := evaluates_divCount hfloat (axis.usizeCount shape) hg
      refine .inl ⟨_, _, ?_, evaluates_expandReductionGrad hfits hz, fun j _ => ?_⟩
      · simp only [reverseCall, callStopsGradient, hnode, hfloat, Bool.not_true]
        show (exprTy env input).bind _ = _
        rw [hinput]
        cases axis <;> rfl
      · rw [hquotient, div_eq_mul_inv]
        rfl
  | var axis' =>
      cases hop
      have h := reductionTypes_of_inferCallResults rfl hok
      by_cases hscalar : shape = [] ∧ axis = .all
      · obtain ⟨rfl, rfl⟩ := hscalar
        refine .inr ⟨rfl, rfl, ?_⟩
        simp only [reverseCall, callStopsGradient, hnode, hfloat, Bool.not_true]
        show (exprTy env input).bind _ = _
        rw [hinput]
        rfl
      · obtain ⟨z, hz, hdeviation⟩ := evaluates_centered hfloat hfits (h.nonempty rfl) hx
        have htwice := Evaluates.binary_right .mul hnumeric (broadcastsTo_nil shape)
          (.const (Numbers.ofField less equal).arithmetic calls values "2.0" elem) hz
        obtain ⟨w, hw, hquotient⟩ := evaluates_divCount hfloat (axis.usizeCount shape) htwice
        refine .inl ⟨_, _, ?_, hspread.mul hnumeric hw, fun j hj => ?_⟩
        · simp only [reverseCall, callStopsGradient, hnode, hfloat, Bool.not_true]
          show (exprTy env input).bind _ = _
          rw [hinput]
          show (if shape.length = 0 ∧ axis = .all then _ else _) = _
          rw [if_neg fun h => hscalar ⟨List.length_eq_zero_iff.mp h.1, h.2⟩]
          cases axis <;> rfl
        · have htwo : (decimal "2.0" : K) = 2 := decimal_count 2
          show (g (axis.reduce j)).1 * (w j).1 = _
          rw [hquotient]
          show (g (axis.reduce j)).1 * ((if elem.isFloat then number (decimal "2.0") else
            (0, integerLiteral "2.0") : Entry K).1 * (z j).1 / _) = _
          rw [if_pos hfloat, hdeviation j hj]
          show (g (axis.reduce j)).1 * (decimal "2.0" * _ / _) = _
          rw [htwo]
          rfl
  | _ => cases hop

end Emission

/-! ## The rules -/

/-- The rule of a reduction emits the transposed formal derivative, over every
field of characteristic zero; a rule that emits nothing has a derivative of zero. -/
def ReductionGradientExact (op : CallOp) (inputTy ty : TensorType) : Prop :=
  ∀ (K : Type u) [Field K] [CharZero K] (less equal : K → K → Bool)
    (env : String → Option TensorType) (node : Node) (input : Expr), node.ty = ty →
    exprTy env input = .ok inputTy →
    ∀ (calls : Calls (Tensor (Entry K))) (values : Env (Tensor (Entry K))) (grad : Expr)
      (g x : List ℕ → Entry K),
      Evaluates (Numbers.ofField less equal).arithmetic calls values grad ty g →
      Evaluates (Numbers.ofField less equal).arithmetic calls values input inputTy x →
      Evaluates (Numbers.ofField less equal).arithmetic calls values (.var node.name) ty
        ((Numbers.ofField less equal).arithmetic.callEntry op [⟨inputTy, x⟩] 0) →
      (∀ axis, op = .prod axis → ∀ j, InBounds j inputTy.shape → (x j).1 ≠ 0) →
      ∃ contributions, reverseCall env node op [input] grad = .ok contributions ∧
        ((contributions = [] ∧ ∀ v, inner ty.shape (fun i => (g i).1)
            (formalDerivative op inputTy.shape (fun j => (x j).1) v) = 0) ∨
          ∃ (gx : Expr) (a : List ℕ → Entry K), contributions = [(input, gx)] ∧
            Evaluates (Numbers.ofField less equal).arithmetic calls values gx inputTy a ∧
            ∀ v, inner ty.shape (fun i => (g i).1)
              (formalDerivative op inputTy.shape (fun j => (x j).1) v) =
                inner inputTy.shape (fun j => (a j).1) v)

section Rules

variable {op : CallOp} {axis : AxisSpec} {inputTy ty : TensorType}

theorem reductionAxis_of_slopeAxis (hop : slopeAxis op = some axis) :
    op.reductionAxis = some axis := by
  cases op with
  | sum axis' | prod axis' | mean axis' | var axis' => exact hop
  | _ => cases hop

/-- **A count that is right makes the gradient right.** -/
theorem reductionGradientExact_of_count (hop : slopeAxis op = some axis)
    (hok : inferCallResults op [inputTy] = .ok [ty]) (hfloat : ty.elem.isFloat = true)
    (hcount : op.needsElements = true → axis.usizeCount inputTy.shape = axis.count inputTy.shape) :
    ReductionGradientExact.{u} op inputTy ty := by
  intro K _ _ less equal env node input hnode hinput calls values grad g x hg hx hy hunits
  have h := reductionTypes_of_inferCallResults (reductionAxis_of_slopeAxis hop) hok
  obtain ⟨elem, shape⟩ := inputTy
  obtain rfl := h.ty_eq
  have hslope : ∀ i j, slope op (axis.usizeCount shape : K) shape (fun j => (x j).1) i j =
      slope op (axis.count shape : K) shape (fun j => (x j).1) i j := by
    intro i j
    cases op with
    | mean axis' | var axis' => rw [hcount rfl]
    | sum axis' | prod axis' => rfl
    | _ => cases hop
  have hinner := fun v => inner_formalDerivative hop h.fits (fun heq => hunits axis heq)
    (fun i => (g i).1) v
  rcases exists_reductionContributions hop h.fits hfloat hnode hinput hok hg hx hy with
    ⟨gx, a, hcall, hgx, ha⟩ | ⟨rfl, rfl, hcall⟩
  · refine ⟨_, hcall, .inr ⟨gx, a, rfl, hgx, fun v => ?_⟩⟩
    refine (hinner v).trans (inner_congr (fun j hj => ?_) fun _ _ => rfl)
    rw [ha j hj, hslope]
  · cases hop
    refine ⟨_, hcall, .inl ⟨rfl, fun v => ?_⟩⟩
    -- one entry is its own mean
    have hmean : Arrays.mean K (members [] AxisSpec.all.reduce []) (fun j => (x j).1) =
        (x []).1 := by
      rw [AxisSpec.members_all .nil, Arrays.mean, card_box, List.prod_nil, Nat.cast_one, inv_one,
        one_smul, sum_box_nil]
    have hflat : slope (.var .all) (AxisSpec.all.count [] : K) [] (fun j => (x j).1) [] [] = 0 := by
      show 2 * ((x []).1 - Arrays.mean K (members [] AxisSpec.all.reduce []) _) / _ = 0
      rw [hmean, sub_self, mul_zero, zero_div]
    refine (hinner v).trans ?_
    unfold Arrays.inner
    rw [sum_box_nil]
    show _ * slope (.var .all) (AxisSpec.all.count [] : K) [] (fun j => (x j).1) [] [] * _ = 0
    rw [hflat, mul_zero, zero_mul]

theorem charZero_ulift : CharZero (ULift.{u} ℚ) :=
  ⟨fun _ _ h => Nat.cast_injective (congrArg ULift.down h)⟩

/-- The slope at the one entry that is not zero tells the count. -/
theorem count_eq_of_slope {K : Type u} [Field K] [CharZero K] {shape j : List ℕ} {m n : ℕ}
    (hop : slopeAxis op = some .all) (hneeds : op.needsElements = true) (hj : InBounds j shape)
    (hlarge : 2 ≤ shape.prod)
    (h : slope op (m : K) shape (unitArray j) [] j = slope op (n : K) shape (unitArray j) [] j) :
    m = n := by
  cases op with
  | mean axis' => exact Nat.cast_injective (inv_injective h)
  | var axis' =>
      cases hop
      have hmean : Arrays.mean K (members shape AxisSpec.all.reduce []) (unitArray j) =
          (shape.prod : K)⁻¹ := by
        rw [AxisSpec.members_all .nil, Arrays.mean, card_box, smul_eq_mul]
        unfold unitArray
        rw [Finset.sum_ite_eq', if_pos (mem_box.mpr hj), mul_one]
      have hdeviation : (2 : K) * (unitArray j j -
          Arrays.mean K (members shape AxisSpec.all.reduce []) (unitArray j)) ≠ 0 := by
        rw [hmean, unitArray, if_pos rfl]
        refine mul_ne_zero two_ne_zero (sub_ne_zero.mpr fun hone => ?_)
        rw [eq_comm, inv_eq_one, Nat.cast_eq_one] at hone
        omega
      have h : 2 * (unitArray j j - _) / (m : K) = 2 * (unitArray j j - _) / (n : K) := h
      rw [div_eq_mul_inv, div_eq_mul_inv] at h
      exact Nat.cast_injective (inv_injective (mul_left_cancel₀ hdeviation h))
  | sum axis' | prod axis' => cases hneeds
  | _ => cases hop

/-- **A gradient that is right makes the count right**: it is compared with the
derivative where one entry is one and the others are zero. -/
theorem usizeCount_eq_of_exact (hop : slopeAxis op = some axis)
    (hok : inferCallResults op [inputTy] = .ok [ty]) (hfloat : ty.elem.isFloat = true)
    (hexact : ReductionGradientExact.{u} op inputTy ty) (hneeds : op.needsElements = true) :
    axis.usizeCount inputTy.shape = axis.count inputTy.shape := by
  have h := reductionTypes_of_inferCallResults (reductionAxis_of_slopeAxis hop) hok
  have hpositive := h.nonempty hneeds
  cases axis with
  | one axis => rfl
  | all =>
      by_contra hwraps
      obtain ⟨elem, shape⟩ := inputTy
      obtain rfl := h.ty_eq
      have hmod : usizeProduct shape = shape.prod % 2 ^ 64 := usizeProduct_eq shape
      have hcount : usizeProduct shape ≠ shape.prod := hwraps
      have hlarge : 2 ^ 64 ≤ shape.prod := by
        by_contra hsmall
        exact hcount (hmod.trans (Nat.mod_eq_of_lt (by omega)))
      obtain ⟨j, hj⟩ : ∃ j, j ∈ box shape := Finset.card_pos.mp (by rw [card_box]; omega)
      have hchar : CharZero (ULift.{u} ℚ) := charZero_ulift
      let less : ULift.{u} ℚ → ULift.{u} ℚ → Bool := fun _ _ => false
      let N : Numbers (ULift.{u} ℚ) := .ofField less less
      let x : List ℕ → Entry (ULift.{u} ℚ) := fun i => number (unitArray j i)
      let g : List ℕ → Entry (ULift.{u} ℚ) := fun _ => 1
      let node : Node := ⟨"y", .call op [.var "x"], ⟨elem, AxisSpec.all.reduce shape⟩⟩
      let env := pairEnv ⟨elem, shape⟩ ⟨elem, AxisSpec.all.reduce shape⟩
      let y := N.arithmetic.callEntry op [⟨⟨elem, shape⟩, x⟩] 0
      let values := operandValues ⟨⟨elem, shape⟩, x⟩ ⟨⟨elem, AxisSpec.all.reduce shape⟩, y⟩
        ⟨⟨elem, AxisSpec.all.reduce shape⟩, g⟩
      have hx : Evaluates N.arithmetic noCalls values (.var "x") ⟨elem, shape⟩ x :=
        ⟨_, rfl, rfl, fun _ _ => rfl⟩
      have hy : Evaluates N.arithmetic noCalls values (.var node.name)
        ⟨elem, AxisSpec.all.reduce shape⟩ y := ⟨_, rfl, rfl, fun _ _ => rfl⟩
      have hg : Evaluates N.arithmetic noCalls values (.var "g")
        ⟨elem, AxisSpec.all.reduce shape⟩ g := ⟨_, rfl, rfl, fun _ _ => rfl⟩
      have hnode : node.ty = ⟨elem, AxisSpec.all.reduce shape⟩ := rfl
      have hinput : exprTy env (.var "x") = .ok ⟨elem, shape⟩ := rfl
      have hnotProd : ∀ axis, op = .prod axis → ∀ i, InBounds i shape → (x i).1 ≠ 0 := by
        rintro axis rfl
        cases hneeds
      obtain ⟨contributions, hclaim, hadjoint⟩ := hexact (ULift.{u} ℚ) less less env node (.var "x")
        hnode hinput noCalls values (.var "g") g x hg hx hy hnotProd
      have hinner := inner_formalDerivative hop h.fits (fun heq => hnotProd .all heq)
        (fun i => (g i).1) (unitArray j)
      rcases exists_reductionContributions hop h.fits hfloat hnode hinput hok hg hx hy with
        ⟨gx, a, hcall, hgx, ha⟩ | ⟨-, hscalar, -⟩
      · rw [hclaim] at hcall
        obtain rfl := Except.ok.inj hcall
        rcases hadjoint with ⟨hnil, -⟩ | ⟨gx', a', hsingle, hgx', hadjoint⟩
        · cases hnil
        · cases hsingle
          have hjb : InBounds j shape := mem_box.mp hj
          have hsent := (hadjoint (unitArray j)).symm.trans hinner
          rw [inner_comm, inner_unitArray hjb, inner_comm, inner_unitArray hjb,
            ← hgx.entry_eq hgx' hjb, ha j hjb] at hsent
          have hone : (g (AxisSpec.all.reduce j)).1 = 1 := rfl
          rw [hone, one_mul, one_mul] at hsent
          exact hcount (count_eq_of_slope hop hneeds hjb (by omega) hsent)
      · subst hscalar
        exact absurd hlarge (by decide)

end Rules

/-- **The rules of `sum`, `prod`, `mean` and `var` emit the transposed formal
derivative exactly where the count of what is combined fits 64 bits.**  Only means
and variances of all entries have a count that can wrap. -/
theorem reductionGradientExact_iff {op : CallOp} {axis : AxisSpec} {inputTy ty : TensorType}
    (hop : slopeAxis op = some axis) (hok : inferCallResults op [inputTy] = .ok [ty])
    (hfloat : ty.elem.isFloat = true) :
    ReductionGradientExact.{u} op inputTy ty ↔
      (op = .mean .all ∨ op = .var .all → inputTy.shape.prod < 2 ^ 64) := by
  have hmod : usizeProduct inputTy.shape = inputTy.shape.prod % 2 ^ 64 := usizeProduct_eq _
  constructor
  · intro hexact hall
    have hcount : usizeProduct inputTy.shape = inputTy.shape.prod := by
      rcases hall with rfl | rfl
      · exact usizeCount_eq_of_exact rfl hok hfloat hexact rfl
      · exact usizeCount_eq_of_exact rfl hok hfloat hexact rfl
    rw [← hcount, hmod]
    exact Nat.mod_lt _ (by decide)
  · intro hfits
    refine reductionGradientExact_of_count hop hok hfloat fun hneeds => ?_
    cases axis with
    | one axis => rfl
    | all =>
        have hall : op = .mean .all ∨ op = .var .all := by
          cases op with
          | mean axis' => exact .inl (congrArg _ (Option.some.inj hop))
          | var axis' => exact .inr (congrArg _ (Option.some.inj hop))
          | sum axis' | prod axis' => cases hneeds
          | _ => cases hop
        exact hmod.trans (Nat.mod_eq_of_lt (hfits hall))

theorem reductionGradientExact_iff_rows :
    ReductionGradientExact.{0} (.mean .all) ⟨.f32, [2, 3]⟩ ⟨.f32, []⟩ ↔
      (CallOp.mean .all = .mean .all ∨ CallOp.mean .all = .var .all →
        ([2, 3] : List ℕ).prod < 2 ^ 64) :=
  @reductionGradientExact_iff (.mean .all) .all ⟨.f32, [2, 3]⟩ ⟨.f32, []⟩ rfl (by decide) rfl

/-- A mean over 2^64 + 2^32 entries divides its gradient by 2^32. -/
theorem not_reductionGradientExact_wrapped :
    inferCallResults (.mean .all) [⟨.f32, [4294967296, 4294967297]⟩] = .ok [⟨.f32, []⟩] ∧
      ¬ ReductionGradientExact.{0} (.mean .all) ⟨.f32, [4294967296, 4294967297]⟩ ⟨.f32, []⟩ := by
  have hok : inferCallResults (.mean .all) [⟨.f32, [4294967296, 4294967297]⟩] =
      .ok [⟨.f32, []⟩] := by decide
  refine ⟨hok, fun hexact => ?_⟩
  have hop : slopeAxis (.mean .all) = some .all := rfl
  have hcount := usizeCount_eq_of_exact hop hok rfl hexact rfl
  exact absurd hcount (by decide)

end Knok.Autograd
