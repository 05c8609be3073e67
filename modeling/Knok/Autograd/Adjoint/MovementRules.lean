import Mathlib
import Knok.Autograd.Adjoint.Movement

/-!
# Gradients of data movement

The reverse rules of the operations that only move data emit their transposes, and
the gradients have the types of the operands
(`gradientsTranspose_of_movementTyped`).  What happens when a size wraps is in
`Knok.Autograd.Adjoint.MovementSizes`.
-/

namespace Knok.Autograd

open Arrays Control

universe u

/-! ## The rules -/

/-- The reverse rule emits the transpose of an operation: every operand receives one
gradient, of its own type, and the gradients balance the inner product of the result
with the incoming gradient. -/
def GradientsTranspose (R : Type u) [CommRing R] (env : String → Option TensorType) (node : Node)
    (op : CallOp) (args : List Expr) (tys : List TensorType) : Prop :=
  ∀ (A : Arithmetic R) (calls : Calls (Tensor R)) (values : Env (Tensor R)) (grad : Expr)
    (g : List ℕ → R), Evaluates A calls values grad node.ty g →
    List.Forall₂ (fun arg ty => ∃ x, Evaluates A calls values arg ty x) args tys →
    ∃ grads : List Expr, ∃ ys : ℕ → List ℕ → R,
      reverseCall env node op args grad = .ok (args.zip grads) ∧ grads.length = args.length ∧
      (∀ k < tys.length,
        Evaluates A calls values (argAt grads k) (tys.getD k default) (ys k)) ∧
      ∀ xs : List (List ℕ → R), inner node.ty.shape (movedArray op tys xs 0) g =
        ∑ k ∈ Finset.range tys.length,
          inner (tys.getD k default).shape (xs.getD k fun _ => 0) (ys k)

section Rules

variable {R : Type u} [CommRing R] {env : String → Option TensorType} {node : Node} {op : CallOp}
  {args : List Expr} {tys : List TensorType}

theorem exists_args_unary {ty : TensorType}
    (hargs : List.Forall₂ (fun arg ty => exprTy env arg = .ok ty) args [ty]) :
    ∃ arg, exprTy env arg = .ok ty ∧ args = [arg] := by
  obtain ⟨arg, rest, harg, hrest, rfl⟩ := List.forall₂_cons_right_iff.mp hargs
  obtain rfl := List.forall₂_nil_right_iff.mp hrest
  exact ⟨arg, harg, rfl⟩

theorem exists_args_binary {ty ty' : TensorType}
    (hargs : List.Forall₂ (fun arg ty => exprTy env arg = .ok ty) args [ty, ty']) :
    ∃ lhs rhs, exprTy env lhs = .ok ty ∧ exprTy env rhs = .ok ty' ∧ args = [lhs, rhs] := by
  obtain ⟨lhs, rest, hlhs, hrest, rfl⟩ := List.forall₂_cons_right_iff.mp hargs
  obtain ⟨rhs, hrhs, rfl⟩ := exists_args_unary hrest
  exact ⟨lhs, rhs, hlhs, hrhs, rfl⟩

/-- Gradients sent along the maps of the operands are the transpose. -/
theorem gradientsTranspose_of_push (htyped : MovementTyped op tys [node.ty])
    (h : ∀ (A : Arithmetic R) (calls : Calls (Tensor R)) (values : Env (Tensor R)) (grad : Expr)
      (g : List ℕ → R), Evaluates A calls values grad node.ty g →
      List.Forall₂ (fun arg ty => ∃ x, Evaluates A calls values arg ty x) args tys →
      ∃ grads : List Expr, reverseCall env node op args grad = .ok (args.zip grads) ∧
        grads.length = args.length ∧
        ∀ k < tys.length, Evaluates A calls values (argAt grads k) (tys.getD k default)
          (push node.ty.shape (operandMap op tys k) g)) :
    GradientsTranspose R env node op args tys := by
  intro A calls values grad g hgrad hargs
  obtain ⟨grads, hreverse, hlen, hgrads⟩ := h A calls values grad g hgrad hargs
  exact ⟨grads, fun k => push node.ty.shape (operandMap op tys k) g, hreverse, hlen, hgrads,
    fun xs => inner_movedArray htyped xs g⟩

theorem gradientsTranspose_unary {arg : Expr} {ty resultTy : TensorType}
    (hresult : node.ty = resultTy) (htyped : MovementTyped op [ty] [resultTy])
    (h : ∀ (A : Arithmetic R) (calls : Calls (Tensor R)) (values : Env (Tensor R)) (grad : Expr)
      (g x : List ℕ → R), Evaluates A calls values grad resultTy g →
      Evaluates A calls values arg ty x →
      ∃ e, reverseCall env node op [arg] grad = .ok [(arg, e)] ∧
        Evaluates A calls values e ty (push resultTy.shape (operandMap op [ty] 0) g)) :
    GradientsTranspose R env node op [arg] [ty] := by
  subst hresult
  refine gradientsTranspose_of_push htyped fun A calls values grad g hgrad hargs => ?_
  obtain ⟨x, hx⟩ := (List.forall₂_cons.mp hargs).1
  obtain ⟨e, hreverse, he⟩ := h A calls values grad g x hgrad hx
  refine ⟨[e], hreverse, rfl, fun k hk => ?_⟩
  obtain rfl : k = 0 := Nat.lt_one_iff.mp hk
  exact he

theorem callStopsGradient_of_movesData {ty : TensorType} (hmoves : op.movesData = true)
    (hfloat : ty.elem.isFloat = true) : callStopsGradient op ty = false := by
  cases op <;> simp_all [callStopsGradient, CallOp.movesData]

/-! ### What the rules emit -/

section Emitted

variable {arg lhs rhs grad : Expr} {ty lhsTy rhsTy target : TensorType}

theorem reverseCall_slice {starts : List ℕ}
    (hstops : callStopsGradient (.slice target starts) node.ty = false)
    (harg : exprTy env arg = .ok ty) :
    reverseCall env node (.slice target starts) [arg] grad =
      .ok [(arg, call (.pad ty starts) [grad])] := by
  simp only [reverseCall, hstops]
  show (exprTy env arg).bind _ = _
  rw [harg]
  rfl

theorem reverseCall_pad {lows : List ℕ}
    (hstops : callStopsGradient (.pad target lows) node.ty = false)
    (harg : exprTy env arg = .ok ty) :
    reverseCall env node (.pad target lows) [arg] grad =
      .ok [(arg, call (.slice ty lows) [grad])] := by
  simp only [reverseCall, hstops]
  show (exprTy env arg).bind _ = _
  rw [harg]
  rfl

theorem reverseCall_reshape (hstops : callStopsGradient (.reshape target) node.ty = false)
    (harg : exprTy env arg = .ok ty) :
    reverseCall env node (.reshape target) [arg] grad =
      .ok [(arg, call (.reshape ty) [grad])] := by
  simp only [reverseCall, hstops]
  show (exprTy env arg).bind _ = _
  rw [harg]
  rfl

theorem reverseCall_concat {axis : ℕ} (hstops : callStopsGradient (.concat axis) node.ty = false)
    (hlhs : exprTy env lhs = .ok lhsTy) (hrhs : exprTy env rhs = .ok rhsTy) :
    reverseCall env node (.concat axis) [lhs, rhs] grad =
      .ok [(lhs, call (.slice lhsTy (List.replicate lhsTy.rank 0)) [grad]),
        (rhs, call (.slice rhsTy (axisOffsets rhsTy.rank axis (lhsTy.dim axis))) [grad])] := by
  simp only [reverseCall, hstops]
  show (exprTy env lhs).bind (fun lhsTy => (exprTy env rhs).bind _) = _
  rw [hlhs, hrhs]
  rfl

theorem reverseCall_tile {multiples : List ℕ}
    (hstops : callStopsGradient (.tile multiples) node.ty = false)
    (harg : exprTy env arg = .ok ty) :
    reverseCall env node (.tile multiples) [arg] grad =
      if 0 ∈ multiples then .ok [(arg, zerosLike arg)]
      else (tileGrad ty ((List.range multiples.length).zip multiples).reverse grad
        node.ty).bind fun e => .ok [(arg, e)] := by
  simp only [reverseCall, hstops]
  show (exprTy env arg).bind _ = _
  rw [harg]
  rfl

theorem reverseCall_repeat {axis count : ℕ}
    (hstops : callStopsGradient (.repeat_ axis count) node.ty = false)
    (harg : exprTy env arg = .ok ty) :
    reverseCall env node (.repeat_ axis count) [arg] grad =
      if count = 0 ∨ ty.dim axis = 0 then .ok [(arg, zerosLike arg)]
      else if count = 1 then .ok [(arg, grad)]
      else if (ty.shape.insertIdx (axis + 1) count).length > 6 then
        .error (error "autograd MVP does not support repeat gradients that require rank above 6")
      else .ok [(arg, call (.sum (.one (axis + 1)))
        [call (.reshape (tensor ty.elem (ty.shape.insertIdx (axis + 1) count))) [grad]])] := by
  have hrule : reverseCall env node (.repeat_ axis count) [arg] grad =
      reverseRepeat env [arg] axis count grad := by
    simp only [reverseCall, hstops]
    rfl
  rw [hrule]
  unfold reverseRepeat
  show (exprTy env arg).bind _ = _
  rw [harg]
  simp only [Except.bind]
  split_ifs <;> rfl

end Emitted

/-! ### The emitted gradients -/

/-- The rule of `tile`. -/
theorem reverseTile_gradient {arg : Expr} {elem : ElementType} {shape multiples : List ℕ}
    (hstops : callStopsGradient (.tile multiples) node.ty = false)
    (harg : exprTy env arg = .ok ⟨elem, shape⟩)
    (hresult : node.ty = ⟨elem, List.zipWith (· * ·) shape multiples⟩)
    (helem : elem.isNumeric = true) (hlen : multiples.length = shape.length)
    (hdims : UsizeDims shape) (hout : UsizeDims node.ty.shape) :
    GradientsTranspose R env node (.tile multiples) [arg] [⟨elem, shape⟩] := by
  refine gradientsTranspose_unary hresult (.tile hlen) fun A calls values grad g x hgrad hx => ?_
  rw [reverseCall_tile hstops harg]
  rw [hresult] at hout ⊢
  by_cases hzero : 0 ∈ multiples
  · refine ⟨_, if_pos hzero, empty_gradient (fun i hi => ?_) hx⟩
    obtain ⟨axis, haxis, hget⟩ := List.mem_iff_getElem.mp hzero
    have hcoord := hi.getD_lt (show axis < (List.zipWith (· * ·) shape multiples).length by
      rw [List.length_zipWith]
      omega)
    rw [getD_zipWith _ hlen.symm (by omega), List.getD_eq_getElem multiples _ haxis, hget] at hcoord
    exact Nat.not_lt_zero _ hcoord
  · obtain ⟨e, he, hevaluates⟩ := tile_gradient helem hlen hdims hout hzero hgrad
    refine ⟨e, ?_, hevaluates⟩
    rw [if_neg hzero, he]
    rfl

/-- The rule of `repeat`. -/
theorem reverseRepeat_gradient {arg : Expr} {elem : ElementType} {shape : List ℕ} {axis count : ℕ}
    (hstops : callStopsGradient (.repeat_ axis count) node.ty = false)
    (harg : exprTy env arg = .ok ⟨elem, shape⟩)
    (hresult : node.ty = ⟨elem, shape.set axis (shape.getD axis 0 * count)⟩)
    (helem : elem.isNumeric = true) (haxis : axis < shape.length) (hrank : shape.length ≤ 5) :
    GradientsTranspose R env node (.repeat_ axis count) [arg] [⟨elem, shape⟩] := by
  refine gradientsTranspose_unary hresult (.repeat_ haxis)
    fun A calls values grad g x hgrad hx => ?_
  rw [reverseCall_repeat hstops harg]
  by_cases hempty : count = 0 ∨ shape.getD axis 0 = 0
  · refine ⟨_, if_pos hempty, empty_gradient (fun i hi => ?_) hx⟩
    have hcoord := hi.getD_lt (show axis < (shape.set axis (shape.getD axis 0 * count)).length by
      rwa [List.length_set])
    rw [getD_set_of_lt haxis, if_pos rfl, Nat.mul_eq_zero.mpr hempty.symm] at hcoord
    exact Nat.not_lt_zero _ hcoord
  · by_cases hone : count = 1
    · subst hone
      refine ⟨grad, (if_neg hempty).trans (if_pos rfl), ?_⟩
      rw [Nat.mul_one, set_getD_self] at hgrad ⊢
      refine hgrad.congr fun j hj => ((push_congr (fun _ _ => rfl) (fun i _ => ?_) j).trans
        (push_id g hj)).symm
      show some (i.set axis (i.getD axis 0 / 1)) = some i
      rw [Nat.div_one, set_getD_self]
    · have hlen := List.length_insertIdx_of_le_length (a := count)
        (show axis + 1 ≤ shape.length from haxis)
      have hlimit : ¬ (shape.insertIdx (axis + 1) count).length > 6 := by omega
      exact ⟨_, (if_neg hempty).trans ((if_neg hone).trans (if_neg hlimit)),
        repeat_gradient helem haxis hgrad⟩

/-- The rules of data movement emit transposes of typed movements. -/
theorem gradientsTranspose_of_movementTyped (htyped : MovementTyped op tys [node.ty])
    (hargs : List.Forall₂ (fun arg ty => exprTy env arg = .ok ty) args tys)
    (hfloat : node.ty.elem.isFloat = true)
    (hsplit : ∀ axis sections, op ≠ .split axis sections)
    (hrepeat : ∀ axis count, op = .repeat_ axis count → (headType tys).rank ≤ 5)
    (hdims : ∀ ty ∈ node.ty :: tys, UsizeDims ty.shape) :
    GradientsTranspose R env node op args tys := by
  have hstops := callStopsGradient_of_movesData htyped.movesData hfloat
  have hnumeric := ElementType.isNumeric_of_isFloat hfloat
  obtain ⟨hresultDims, hdims⟩ := List.forall_mem_cons.mp hdims
  generalize hresults : [node.ty] = results at htyped
  cases htyped with
  | slice hfits =>
      obtain ⟨arg, harg, rfl⟩ := exists_args_unary hargs
      exact gradientsTranspose_unary (List.singleton_inj.mp hresults) (.slice hfits)
        fun A calls values grad g x hgrad _ => ⟨_, reverseCall_slice hstops harg,
          slice_gradient hfits (hdims _ List.mem_cons_self) hgrad⟩
  | split haxis hsum => exact absurd rfl (hsplit _ _)
  | take haxis hindex =>
      obtain ⟨arg, harg, rfl⟩ := exists_args_unary hargs
      refine gradientsTranspose_unary (List.singleton_inj.mp hresults) (.take haxis hindex)
        fun A calls values grad g x hgrad _ => ⟨_, ?_, take_gradient
          (hdims _ List.mem_cons_self) haxis hindex hgrad⟩
      simp only [reverseCall, hstops]
      show (exprTy env arg).bind _ = _
      rw [harg]
      rfl
  | @concat elem shape axis size haxis =>
      obtain ⟨lhs, rhs, hlhs, hrhs, rfl⟩ := exists_args_binary hargs
      have hresult := List.singleton_inj.mp hresults
      rw [hresult] at hresultDims
      refine gradientsTranspose_of_push (hresult ▸ .concat haxis)
        fun A calls values grad g hgrad _ => ?_
      rw [hresult] at hgrad ⊢
      refine ⟨[call (.slice ⟨elem, shape⟩ (List.replicate shape.length 0)) [grad],
        call (.slice ⟨elem, shape.set axis size⟩
          (axisOffsets shape.length axis (shape.getD axis 0))) [grad]], ?_, rfl, fun k hk => ?_⟩
      · rw [reverseCall_concat hstops hlhs hrhs]
        show Except.ok [(lhs, _), (rhs, call (.slice ⟨elem, shape.set axis size⟩
          (axisOffsets (shape.set axis size).length axis (shape.getD axis 0))) [grad])] = _
        rw [List.length_set]
        rfl
      · obtain rfl | rfl : k = 0 ∨ k = 1 := by
          have hk : k < 2 := hk
          omega
        · exact concat_gradient_lhs hresultDims haxis hgrad
        · exact concat_gradient_rhs hresultDims haxis hgrad
  | @stack elem shape axis haxis =>
      obtain ⟨lhs, rhs, hlhs, hrhs, rfl⟩ := exists_args_binary hargs
      have hresult := List.singleton_inj.mp hresults
      refine gradientsTranspose_of_push (hresult ▸ .stack haxis)
        fun A calls values grad g hgrad _ => ?_
      rw [hresult] at hgrad ⊢
      refine ⟨[call (.take axis 0) [grad], call (.take axis 1) [grad]], ?_, rfl, fun k hk => ?_⟩
      · simp only [reverseCall, hstops]
        rfl
      · have hk : k < 2 := hk
        have htake := stack_gradient haxis hk hgrad
        obtain rfl | rfl : k = 0 ∨ k = 1 := by omega
        · exact htake
        · exact htake
  | tile hlen =>
      obtain ⟨arg, harg, rfl⟩ := exists_args_unary hargs
      have hresult := List.singleton_inj.mp hresults
      rw [hresult] at hnumeric
      exact reverseTile_gradient hstops harg hresult hnumeric hlen (hdims _ List.mem_cons_self)
        hresultDims
  | repeat_ haxis =>
      obtain ⟨arg, harg, rfl⟩ := exists_args_unary hargs
      have hresult := List.singleton_inj.mp hresults
      rw [hresult] at hnumeric
      exact reverseRepeat_gradient hstops harg hresult hnumeric haxis (hrepeat _ _ rfl)
  | flip hnodup hlt =>
      obtain ⟨arg, harg, rfl⟩ := exists_args_unary hargs
      refine gradientsTranspose_unary (List.singleton_inj.mp hresults) (.flip hnodup hlt)
        fun A calls values grad g x hgrad _ => ⟨_, ?_, flip_gradient hnodup hlt hgrad⟩
      simp only [reverseCall, hstops]
      rfl
  | roll haxis =>
      obtain ⟨arg, harg, rfl⟩ := exists_args_unary hargs
      refine gradientsTranspose_unary (List.singleton_inj.mp hresults) (.roll haxis)
        fun A calls values grad g x hgrad _ => ⟨_, ?_, roll_gradient haxis hgrad⟩
      simp only [reverseCall, hstops]
      show (exprTy env arg).bind _ = _
      rw [harg]
      rfl
  | pad hfits =>
      obtain ⟨arg, harg, rfl⟩ := exists_args_unary hargs
      have hresult := List.singleton_inj.mp hresults
      rw [hresult] at hresultDims
      exact gradientsTranspose_unary hresult (.pad hfits)
        fun A calls values grad g x hgrad _ =>
          ⟨_, reverseCall_pad hstops harg, pad_gradient hfits hresultDims hgrad⟩
  | transpose hperm =>
      obtain ⟨arg, harg, rfl⟩ := exists_args_unary hargs
      refine gradientsTranspose_unary (List.singleton_inj.mp hresults) (.transpose hperm)
        fun A calls values grad g x hgrad _ => ⟨_, ?_, transpose_gradient hperm hgrad⟩
      simp only [reverseCall, hstops]
      show (exprTy env arg).bind _ = _
      rw [harg]
      rfl
  | permute hperm =>
      obtain ⟨arg, harg, rfl⟩ := exists_args_unary hargs
      refine gradientsTranspose_unary (List.singleton_inj.mp hresults) (.permute hperm)
        fun A calls values grad g x hgrad _ => ⟨_, ?_, permute_gradient hperm (fun _ => rfl) hgrad⟩
      simp only [reverseCall, hstops]
      rfl
  | permuteDims hperm =>
      obtain ⟨arg, harg, rfl⟩ := exists_args_unary hargs
      refine gradientsTranspose_unary (List.singleton_inj.mp hresults) (.permuteDims hperm)
        fun A calls values grad g x hgrad _ => ⟨_, ?_, permute_gradient hperm (fun _ => rfl) hgrad⟩
      simp only [reverseCall, hstops]
      rfl
  | swapAxes haxis0 haxis1 =>
      obtain ⟨arg, harg, rfl⟩ := exists_args_unary hargs
      refine gradientsTranspose_unary (List.singleton_inj.mp hresults) (.swapAxes haxis0 haxis1)
        fun A calls values grad g x hgrad _ => ⟨_, ?_, swapAxes_gradient haxis0 haxis1 hgrad⟩
      simp only [reverseCall, hstops]
      rfl
  | moveAxis hsource hdestination =>
      obtain ⟨arg, harg, rfl⟩ := exists_args_unary hargs
      refine gradientsTranspose_unary (List.singleton_inj.mp hresults)
        (.moveAxis hsource hdestination) fun A calls values grad g x hgrad _ =>
          ⟨_, ?_, moveAxis_gradient hsource hdestination hgrad⟩
      simp only [reverseCall, hstops]
      rfl
  | reshape hprod =>
      obtain ⟨arg, harg, rfl⟩ := exists_args_unary hargs
      exact gradientsTranspose_unary (List.singleton_inj.mp hresults) (.reshape hprod)
        fun A calls values grad g x hgrad _ =>
          ⟨_, reverseCall_reshape hstops harg, reshape_gradient hprod hgrad⟩

end Rules

end Knok.Autograd
