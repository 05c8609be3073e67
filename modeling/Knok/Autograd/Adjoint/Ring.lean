import Mathlib
import Knok.Marks
import Knok.ExactSemantics
import Knok.Unsqueeze
import Knok.Autograd.Adjoint.Reduction
import Knok.Autograd.Adjoint.Unbroadcast
import Knok.Arrays.Promotion

/-!
# Reverse rules of ring arithmetic along a tangent

A flattened graph is evaluated in three ways at once: on numbers, on dual numbers,
and with marks for what is ring arithmetic without wrapped sizes (`Moving`).  A
gradient paired with the tangent of its target is a number (`Moving.pairing`).
The reverse rules keep it: what a node passes on to its operands has, in all, the
pairing of the node (`nodeContributions_balanced`).

### Design decisions

* **Types first.**  An expression that is followed has a type, and with it a value
  of every kind (`Moving.Follows`); operands inherit this from the node.
* **Failing rules.**  Nothing is asked of a rule that fails: the hypothesis is that
  the rule returned its contributions.
-/

namespace Knok

/-- What a flattened expression reads. -/
def Expr.operands : Expr → List Expr
  | .var name => [.var name]
  | .unary _ value => [value]
  | .binary _ lhs rhs => [lhs, rhs]
  | .call _ args => args
  | _ => []

theorem Expr.operands_subset_subexprs (e : Expr) : e.operands ⊆ e.subexprs := by
  intro s hs
  cases e with
  | var name =>
      obtain rfl := List.mem_singleton.mp hs
      exact mem_subexprs_self _
  | unary op value =>
      obtain rfl := List.mem_singleton.mp hs
      simp [subexprs, mem_subexprs_self]
  | binary op lhs rhs =>
      simp only [operands, List.mem_cons, List.not_mem_nil, or_false] at hs
      rcases hs with rfl | rfl <;> simp [subexprs, mem_subexprs_self]
  | call op args =>
      simp only [subexprs, List.mem_cons, mem_subexprsList]
      exact .inr ⟨s, hs, mem_subexprs_self s⟩
  | _ => cases hs

namespace Autograd

open Arrays Control

universe u

variable {R : Type u} [CommRing R] {A : Arithmetic R}

/-- The names of a graph with their types, values, moving values and marks. -/
structure Moving (A : Arithmetic R) where
  types : Env TensorType
  values : Env (Tensor R)
  duals : Env (Tensor (DualNumber R))
  marked : Env (TensorType × Bool)
  duals_typed : A.dualSemantics.EnvTyped types duals
  marked_typed : ringMarks.EnvTyped types marked
  primal : ∀ name, (duals name).map Tensor.primal = values name

namespace Moving

variable (F : Moving A)

/-- An expression with its type and its moving value; everything that it depends on
is ring arithmetic without wrapped sizes. -/
structure Follows (e : Expr) (t : Tensor (DualNumber R)) : Prop where
  typed : evalTensor typeInterp noCalls F.types e = some t.ty
  dual : evalTensor A.dualSemantics.interp noCalls F.duals e = some t
  marked : evalTensor ringMarks.interp noCalls F.marked e = some (t.ty, true)

/-- The inner product of a gradient with the tangent of its target. -/
def pairing (grad target : Expr) : R :=
  match evalTensor A.semantics.interp noCalls F.values grad,
    evalTensor A.dualSemantics.interp noCalls F.duals target with
  | some g, some t => inner t.ty.shape g.entry t.tangent
  | _, _ => 0

/-- A gradient of the type of its target, which is a float tensor. -/
def Receives (grad target : Expr) : Prop :=
  ∃ t g, F.Follows target t ∧ t.ty.elem.isFloat = true ∧
    Evaluates A noCalls F.values grad t.ty g

/-- The contributions reach float operands and have the pairing in all. -/
structure Balanced (operands : List Expr) (contributions : List (Expr × Expr)) (total : R) :
    Prop where
  operands : ∀ c ∈ contributions, c.1 ∈ operands
  receives : ∀ c ∈ contributions, F.Receives c.2 c.1
  sum : (contributions.map fun c => F.pairing c.2 c.1).sum = total

variable {F} {e grad target : Expr} {t : Tensor (DualNumber R)} {g : List ℕ → R}

theorem pairing_eq (hgrad : Evaluates A noCalls F.values grad t.ty g)
    (htarget : evalTensor A.dualSemantics.interp noCalls F.duals target = some t) :
    F.pairing grad target = inner t.ty.shape g t.tangent := by
  obtain ⟨x, hx, hty, hentry⟩ := hgrad
  have hx' : evalTensor A.semantics.interp noCalls F.values grad = some x :=
    OpSemantics.evalTensor_of_checked hx
  rw [pairing, hx', htarget]
  exact inner_congr hentry fun _ _ => rfl

/-- The values of what is followed. -/
theorem Follows.evaluates (h : F.Follows e t) :
    Evaluates A noCalls F.values e t.ty t.primal.entry := by
  refine ⟨t.primal, ?_, rfl, fun _ _ => rfl⟩
  have hvalue := A.primalHom.evalTensor F.primal e
  rw [show evalTensor A.dualSemantics.toOpSemantics.toInterp noCalls F.duals e = some t from h.dual]
    at hvalue
  exact (OpSemantics.evalTensor_checked_of_typed h.typed).trans hvalue.symm

/-- A typed expression has a moving value and a mark. -/
theorem exists_of_typed {ty : TensorType}
    (h : evalTensor typeInterp noCalls F.types e = some ty) :
    ∃ t b, t.ty = ty ∧ evalTensor A.dualSemantics.interp noCalls F.duals e = some t ∧
      evalTensor ringMarks.interp noCalls F.marked e = some (ty, b) := by
  obtain ⟨t, ht, hty⟩ := TypedSemantics.exists_evalTensor
    (A.dualSemantics.callsTyped_noCalls noCalls) F.duals_typed h
  obtain ⟨⟨ty', b⟩, hm, rfl⟩ := TypedSemantics.exists_evalTensor
    (ringMarks.callsTyped_noCalls noCalls) F.marked_typed h
  exact ⟨t, b, hty, ht, hm⟩

/-! ### Operands -/

/-- The operand of a negation. -/
theorem Follows.neg (h : F.Follows (.unary .neg e) t) :
    ∃ x, F.Follows e x ∧ x.ty = t.ty ∧ t = ⟨x.ty, fun i => -x.entry i⟩ := by
  have htyped := h.typed
  rw [evalTensor_unary] at htyped
  obtain ⟨ty, hty, hrule⟩ := Option.bind_eq_some_iff.mp htyped
  obtain ⟨x, b, rfl, hx, hmark⟩ := exists_of_typed hty
  have hdual := h.dual
  rw [evalTensor_unary, hx] at hdual
  have hmarked := h.marked
  rw [evalTensor_unary, hmark] at hmarked
  obtain ⟨hxt, rfl⟩ := Prod.mk.inj (Option.some.inj hmarked)
  refine ⟨x, ⟨hty, hx, hmark⟩, hxt, ?_⟩
  change (if x.ty.elem.isNumeric then some _ else none) = some t at hdual
  split_ifs at hdual
  exact (Option.some.inj hdual).symm

/-- The operands of an operator. -/
theorem Follows.binary {op : BinaryOp} {lhs rhs : Expr} (h : F.Follows (.binary op lhs rhs) t) :
    ∃ l r, F.Follows lhs l ∧ F.Follows rhs r ∧ binaryResultType l.ty r.ty = .ok t.ty ∧
      ringBinary op = true ∧ t = ⟨t.ty, fun i => A.dual.binaryEntry t.ty.elem op (l.at i) (r.at i)⟩ := by
  have htyped := h.typed
  rw [evalTensor_binary] at htyped
  obtain ⟨lty, hlty, htyped⟩ := Option.bind_eq_some_iff.mp htyped
  obtain ⟨rty, hrty, hrule⟩ := Option.bind_eq_some_iff.mp htyped
  have hrule : binaryResultType lty rty = .ok t.ty := except_toOption_eq_some_iff.mp hrule
  obtain ⟨l, b, rfl, hl, hlmark⟩ := exists_of_typed hlty
  obtain ⟨r, b', rfl, hr, hrmark⟩ := exists_of_typed hrty
  have hdual := h.dual
  rw [evalTensor_binary, hl, hr] at hdual
  change A.dual.binary op l r = some t at hdual
  rw [Arithmetic.binary, hrule, Option.some.injEq] at hdual
  have hmarked := h.marked
  rw [evalTensor_binary, hlmark, hrmark] at hmarked
  change (binaryResultType l.ty r.ty).toOption.map _ = some (t.ty, true) at hmarked
  rw [hrule] at hmarked
  have hall := (Prod.mk.inj (Option.some.inj hmarked)).2
  simp only [Bool.and_eq_true] at hall
  obtain ⟨⟨hop, rfl⟩, rfl⟩ := hall
  exact ⟨l, r, ⟨hlty, hl, hlmark⟩, ⟨hrty, hr, hrmark⟩, hrule, hop, hdual.symm⟩

end Moving

/-- The operations of ring arithmetic have one operand, and those other than a split
one result. -/
theorem exists_of_ringOp {op : CallOp} {tys results : List TensorType} (hop : ringOp op = true)
    (hok : inferCallResults op tys = .ok results) :
    ∃ ty, tys = [ty] ∧ ((∀ axis sections, op ≠ .split axis sections) → ∃ r, results = [r]) := by
  cases op with
  | graph name => cases hok
  | square | sum _ | reshape _ | squeeze _ | unsqueeze _ | broadcast _ | detach | zerosLike
  | onesLike | slice _ _ | split _ _ =>
      simp only [inferCallResults, except_bind_eq_ok_iff, expectUnary_eq_ok_iff] at hok
      obtain ⟨ty, rfl, hrest⟩ := hok
      refine ⟨ty, rfl, fun hsplit => ?_⟩
      first
        | exact absurd rfl (hsplit _ _)
        | (simp only [except_pure_eq_ok_iff] at hrest
           grind)
  | _ => cases hop

theorem prod_withoutSingletons (shape : List ℕ) : (withoutSingletons shape).prod = shape.prod := by
  unfold withoutSingletons
  induction shape with
  | nil => rfl
  | cons dim shape ih =>
      rw [List.filter_cons]
      split_ifs with hone
      · rw [List.prod_cons, List.prod_cons, ih]
      · rw [List.prod_cons, ih, show dim = 1 by simpa using hone, one_mul]

/-- A change of layout keeps the element type and the number of elements. -/
theorem layout_of_inferCallResults {op : CallOp} {input target ty : TensorType}
    (hop : op = .reshape target ∨ op = .squeeze target ∨ op = .unsqueeze target)
    (hexact : exactSizes op [input] = true) (hok : inferCallResults op [input] = .ok [ty]) :
    ty = target ∧ input.elem = ty.elem ∧ input.shape.prod = ty.shape.prod := by
  rcases hop with rfl | rfl | rfl
  · simp only [inferCallResults, validateReshape, except_bind_eq_ok_iff, expectUnary_eq_ok_iff,
      except_pure_eq_ok_iff, failIf_eq_ok_iff, exists_const, bne_eq_false_iff_eq] at hok
    obtain ⟨_, hinput, ⟨helem, -⟩, hty⟩ := hok
    cases hinput
    cases hty
    exact ⟨rfl, helem, of_decide_eq_true hexact⟩
  · simp only [inferCallResults, validateSqueeze, except_bind_eq_ok_iff, expectUnary_eq_ok_iff,
      except_pure_eq_ok_iff, failIf_eq_ok_iff, exists_const, bne_eq_false_iff_eq] at hok
    obtain ⟨_, hinput, ⟨helem, hshape⟩, hty⟩ := hok
    cases hinput
    cases hty
    exact ⟨rfl, helem, by rw [← hshape, prod_withoutSingletons]⟩
  · simp only [inferCallResults, except_bind_eq_ok_iff, expectUnary_eq_ok_iff,
      except_pure_eq_ok_iff] at hok
    obtain ⟨_, hinput, _, hvalid, hty⟩ := hok
    cases hinput
    cases hty
    obtain ⟨helem, hshape⟩ := validateUnsqueeze_eq_ok_iff.mp hvalid
    refine ⟨rfl, helem, ?_⟩
    rw [← prod_withoutSingletons target.shape]
    rcases hshape with hshape | ⟨hone, hshape⟩
    · rw [hshape]
    · rw [hone, hshape]
      rfl

namespace Moving

variable {F : Moving A} {e : Expr} {t : Tensor (DualNumber R)}

/-- The operand of an operation. -/
theorem Follows.call {op : CallOp} {args : List Expr}
    (hsplit : ∀ axis sections, op ≠ .split axis sections) (h : F.Follows (.call op args) t) :
    ∃ arg x, args = [arg] ∧ F.Follows arg x ∧ ringOp op = true ∧ exactSizes op [x.ty] = true ∧
      inferCallResults op [x.ty] = .ok [t.ty] ∧ A.dualCall op [x] = some [t] := by
  have hgraph : ∀ name, op ≠ .graph name := by
    rintro name rfl
    have htyped := h.typed
    rw [evalTensor, evalOutputs_graph] at htyped
    cases hargs : evalArgs typeInterp noCalls F.types args <;> rw [hargs] at htyped <;> cases htyped
  have htyped := evalOutputs_eq_some_singleton _ _ _ h.typed
  rw [evalOutputs_call _ _ _ hgraph, evalArgs_eq_mapM] at htyped
  simp only [typeInterp, Option.bind_eq_bind, Option.bind_eq_some_iff] at htyped
  obtain ⟨-, -, tys, htys, hinfer⟩ := htyped
  have hinfer := except_toOption_eq_some_iff.mp hinfer
  -- the marks say that the operation is one of ring arithmetic, hence unary
  obtain ⟨marks, hmarks, hmarkTys⟩ : ∃ ms : List (TensorType × Bool),
      args.mapM (evalTensor ringMarks.interp noCalls F.marked) = some ms ∧
        ms.map Prod.fst = tys := by
    rw [← evalArgs_eq_mapM] at htys ⊢
    exact TypedSemantics.exists_evalArgs (fun arg _ => TypedSemantics.exists_evalOutputs
      (ringMarks.callsTyped_noCalls noCalls) F.marked_typed arg) tys htys
  have hmarked := evalOutputs_eq_some_singleton _ _ _ h.marked
  rw [evalOutputs_call _ _ _ hgraph, evalArgs_eq_mapM, hmarks] at hmarked
  change markedResults _ op marks = some [(t.ty, true)] at hmarked
  rw [markedResults_of_ne_split hsplit, markedCall, hmarkTys, hinfer] at hmarked
  have hall := (Prod.mk.inj (List.cons.inj (Option.some.inj hmarked)).1).2
  simp only [Bool.and_eq_true] at hall
  obtain ⟨⟨hop, hsizes⟩, hargsMarked⟩ := hall
  obtain ⟨ty, rfl, -⟩ := exists_of_ringOp hop hinfer
  obtain ⟨arg, rest, harg, hrest, rfl⟩ :=
    List.forall₂_cons_right_iff.mp (option_mapM_eq_some_iff.mp htys)
  obtain rfl := List.forall₂_nil_right_iff.mp hrest
  obtain ⟨x, b, rfl, hx, hmark⟩ := exists_of_typed harg
  rw [List.mapM_cons, hmark] at hmarks
  obtain rfl : [(x.ty, b)] = marks := Option.some.inj hmarks
  simp only [List.all_cons, List.all_nil, Bool.and_true] at hargsMarked
  subst hargsMarked
  refine ⟨arg, x, rfl, ⟨harg, hx, hmark⟩, hop, hsizes, hinfer, ?_⟩
  have hdual := evalOutputs_eq_some_singleton _ _ _ h.dual
  rw [evalOutputs_call _ _ _ hgraph, evalArgs_eq_mapM, List.mapM_cons, hx] at hdual
  exact hdual

/-! ## Contributions -/

theorem Balanced.nil (operands : List Expr) : F.Balanced operands [] 0 where
  operands _ h := absurd h List.not_mem_nil
  receives _ h := absurd h List.not_mem_nil
  sum := rfl

theorem Balanced.single {arg grad : Expr} {x : Tensor (DualNumber R)} {g : List ℕ → R}
    (harg : F.Follows arg x) (hfloat : x.ty.elem.isFloat = true)
    (hgrad : Evaluates A noCalls F.values grad x.ty g) :
    F.Balanced [arg] [(arg, grad)] (inner x.ty.shape g x.tangent) where
  operands c hc := by
    obtain rfl := List.mem_singleton.mp hc
    exact List.mem_singleton_self arg
  receives c hc := by
    obtain rfl := List.mem_singleton.mp hc
    exact ⟨x, g, harg, hfloat, hgrad⟩
  sum := by
    rw [List.map_singleton, List.sum_singleton]
    exact pairing_eq hgrad harg.dual

theorem Balanced.append {es es' : List Expr} {cs cs' : List (Expr × Expr)} {a b : R}
    (h : F.Balanced es cs a) (h' : F.Balanced es' cs' b) :
    F.Balanced (es ++ es') (cs ++ cs') (a + b) where
  operands c hc := List.mem_append.mpr ((List.mem_append.mp hc).imp (h.operands c) (h'.operands c))
  receives c hc := (List.mem_append.mp hc).elim (h.receives c) (h'.receives c)
  sum := by rw [List.map_append, List.sum_append, h.sum, h'.sum]

theorem Balanced.congr {es : List Expr} {cs : List (Expr × Expr)} {a b : R}
    (h : F.Balanced es cs a) (hab : a = b) : F.Balanced es cs b := hab ▸ h

variable {env : Env TensorType}

/-- The type that a rule looks up is the type of the operand. -/
theorem Follows.exprTy_eq (h : F.Follows e t) (henv : Env.Extends env F.types) {ty : TensorType}
    (hty : exprTy env e = .ok ty) : ty = t.ty := by
  have htyped := h.typed
  cases e with
  | var name =>
      cases hname : env name with
      | none => simp [exprTy, hname] at hty
      | some ty' =>
          rw [evalTensor_var, henv name _ hname] at htyped
          simp only [exprTy, hname, Except.ok.injEq] at hty
          exact hty.symm.trans (Option.some.inj htyped)
  | const value elem =>
      cases hty
      rw [evalTensor_const] at htyped
      exact Option.some.inj htyped
  | _ => cases hty

/-- Undoing a broadcast keeps the pairing. -/
theorem Balanced.unbroadcast {arg grad grad' : Expr} {x : Tensor (DualNumber R)}
    {ty : TensorType} {g : List ℕ → R} (harg : F.Follows arg x) (hfloat : ty.elem.isFloat = true)
    (hgrad : Evaluates A noCalls F.values grad ty g)
    (hok : Autograd.unbroadcast grad ty x.ty = .ok grad') :
    F.Balanced [arg] [(arg, grad')]
      (inner ty.shape g fun i => x.tangent (broadcastIndex x.ty.shape i)) := by
  obtain ⟨helem, hbroadcast⟩ := exists_unbroadcast_iff.mp ⟨grad', hok⟩
  have heval := evaluates_unbroadcast (ElementType.isNumeric_of_isFloat hfloat) hok hgrad
  have hbalanced := Balanced.single harg (helem ▸ hfloat) heval
  rwa [inner_comm, ← inner_broadcastFrom hbroadcast, inner_comm] at hbalanced

/-- The contributions of an elementwise operation. -/
theorem Balanced.binary {lhs rhs lhsGrad rhsGrad : Expr} {l r : Tensor (DualNumber R)}
    {ty : TensorType} {gl gr : List ℕ → R} {cs : List (Expr × Expr)}
    (henv : Env.Extends env F.types) (hl : F.Follows lhs l) (hr : F.Follows rhs r)
    (hfloat : ty.elem.isFloat = true) (hgl : Evaluates A noCalls F.values lhsGrad ty gl)
    (hgr : Evaluates A noCalls F.values rhsGrad ty gr)
    (hok : binaryContributions env lhs rhs ty lhsGrad rhsGrad = .ok cs) :
    F.Balanced [lhs, rhs] cs (inner ty.shape gl (fun i => l.tangent (broadcastIndex l.ty.shape i)) +
      inner ty.shape gr fun i => r.tangent (broadcastIndex r.ty.shape i)) := by
  obtain ⟨lty, hlty, hok⟩ := except_bind_eq_ok_iff.mp hok
  obtain ⟨rty, hrty, hok⟩ := except_bind_eq_ok_iff.mp hok
  obtain ⟨lg, hlg, hok⟩ := except_bind_eq_ok_iff.mp hok
  obtain ⟨rg, hrg, hok⟩ := except_bind_eq_ok_iff.mp hok
  obtain rfl := except_pure_eq_ok_iff.mp hok
  obtain rfl := hl.exprTy_eq henv hlty
  obtain rfl := hr.exprTy_eq henv hrty
  exact (Balanced.unbroadcast hl hfloat hgl hlg).append (Balanced.unbroadcast hr hfloat hgr hrg)

/-! ## Operators -/

/-- The rules of the arithmetic operators keep the pairing. -/
theorem reverseBinary_balanced {op : BinaryOp} {lhs rhs grad : Expr} {ty : TensorType}
    {g : List ℕ → R} {cs : List (Expr × Expr)} (henv : Env.Extends env F.types)
    (h : F.Follows (.binary op lhs rhs) t) (hty : t.ty = ty) (hfloat : ty.elem.isFloat = true)
    (hgrad : Evaluates A noCalls F.values grad ty g)
    (hok : reverseBinary env op lhs rhs ty grad = .ok cs) :
    F.Balanced [lhs, rhs] cs (inner ty.shape g t.tangent) := by
  subst hty
  obtain ⟨l, r, hl, hr, hrule, hop, ht⟩ := h.binary
  obtain ⟨-, hrelem, htelem, hjoin⟩ := binaryResultType_eq_ok_iff.mp hrule
  obtain ⟨hlsmall, hrsmall⟩ := broadcastsTo_of_broadcastShapeSlices hjoin
  have hnumeric := ElementType.isNumeric_of_isFloat hfloat
  have htangent : ∀ i, t.tangent i = (A.dual.binaryEntry t.ty.elem op (l.at i) (r.at i)).snd := by
    intro i
    conv_lhs => rw [ht]
    rfl
  -- it is enough to compare the entries
  suffices hsum : ∀ {lg rg : Expr} {gl gr : List ℕ → R},
      binaryContributions env lhs rhs t.ty lg rg = .ok cs →
      Evaluates A noCalls F.values lg t.ty gl → Evaluates A noCalls F.values rg t.ty gr →
      (∀ i, g i * t.tangent i = gl i * l.tangent (broadcastIndex l.ty.shape i) +
        gr i * r.tangent (broadcastIndex r.ty.shape i)) →
      F.Balanced [lhs, rhs] cs (inner t.ty.shape g t.tangent) by
    have hlelem : l.ty = ⟨t.ty.elem, l.ty.shape⟩ := by rw [htelem]
    have hrelem' : r.ty = ⟨t.ty.elem, r.ty.shape⟩ := by rw [htelem, ← hrelem]
    have hly := hlelem ▸ hl.evaluates
    have hry := hrelem' ▸ hr.evaluates
    cases op with
    | add =>
        refine hsum hok hgrad hgrad fun i => ?_
        rw [htangent]
        exact mul_add _ _ _
    | sub =>
        refine hsum hok hgrad (hgrad.neg hnumeric) fun i => ?_
        rw [htangent]
        show g i * ((l.at i).snd - (r.at i).snd) = g i * (l.at i).snd + -g i * (r.at i).snd
        ring
    | mul =>
        refine hsum hok (hgrad.binary_left .mul hnumeric hrsmall hry)
          (hgrad.binary_left .mul hnumeric hlsmall hly) fun i => ?_
        rw [htangent]
        show g i * (l.at i * r.at i).snd = g i * (r.at i).fst * (l.at i).snd +
          g i * (l.at i).fst * (r.at i).snd
        rw [TrivSqZeroExt.snd_mul, smul_eq_mul, MulOpposite.smul_eq_mul_unop,
          MulOpposite.unop_op]
        ring
    | div => cases hop
  intro lg rg gl gr hcs hgl hgr hentry
  refine (Balanced.binary henv hl hr hfloat hgl hgr hcs).congr ?_
  unfold Arrays.inner
  rw [← Finset.sum_add_distrib]
  exact Finset.sum_congr rfl fun i _ => (hentry i).symm

/-! ## Operations -/

/-- The tangent of a result; only `detach` stops it. -/
theorem tangent_eq_of_dualCall {op : CallOp} {x : Tensor (DualNumber R)} (hop : op ≠ .detach)
    (hinfer : inferCallResults op [x.ty] = .ok [t.ty]) (hdual : A.dualCall op [x] = some [t])
    (i : List ℕ) : t.tangent i = (A.dual.callEntry op [x] 0 i).snd := by
  rw [Arithmetic.dualCall_of_ne_detach hop, Arithmetic.call, List.map_singleton, hinfer] at hdual
  obtain ⟨ht, -⟩ := List.cons.inj (Option.some.inj hdual)
  rw [← ht]
  rfl

/-- A gradient sent back along what a result was read from. -/
theorem Balanced.moved {arg grad : Expr} {x : Tensor (DualNumber R)} {ty : TensorType}
    {σ : IndexMap} {g : List ℕ → R} (harg : F.Follows arg x) (hfloat : x.ty.elem.isFloat = true)
    (hmaps : MapsBox ty.shape x.ty.shape σ)
    (hread : ∀ i, InBounds i ty.shape → t.tangent i = pull σ x.tangent i)
    (hgrad : Evaluates A noCalls F.values grad x.ty (push ty.shape σ g)) :
    F.Balanced [arg] [(arg, grad)] (Arrays.inner ty.shape g t.tangent) := by
  have hbalanced := Balanced.single harg hfloat hgrad
  rw [inner_comm, ← inner_pull hmaps, inner_comm] at hbalanced
  rwa [inner_congr (fun _ _ => rfl) hread]

variable {arg grad : Expr} {x : Tensor (DualNumber R)} {g : List ℕ → R} {cs : List (Expr × Expr)}

/-- What a rule with one operand returns. -/
theorem exists_exprTy_of_bind {rule : TensorType → Contributions}
    (henv : Env.Extends env F.types) (harg : F.Follows arg x)
    (hok : (exprTy env arg >>= rule) = .ok cs) : rule x.ty = .ok cs := by
  obtain ⟨ty, hty, hok⟩ := except_bind_eq_ok_iff.mp hok
  rwa [harg.exprTy_eq henv hty] at hok

/-- Squares. -/
theorem square_balanced {name : String} (htwo : A.literal "2.0" t.ty.elem = 2)
    (harg : F.Follows arg x) (hfloat : t.ty.elem.isFloat = true)
    (hinfer : inferCallResults .square [x.ty] = .ok [t.ty])
    (hdual : A.dualCall .square [x] = some [t])
    (hgrad : Evaluates A noCalls F.values grad t.ty g)
    (hok : reverseCall env ⟨name, .call .square [arg], t.ty⟩ .square [arg] grad = .ok cs) :
    F.Balanced [arg] cs (Arrays.inner t.ty.shape g t.tangent) := by
  have htangent := tangent_eq_of_dualCall (by simp) hinfer hdual
  have hty : x.ty = t.ty := by
    simp only [inferCallResults, except_bind_eq_ok_iff, expectUnary_eq_ok_iff,
      except_pure_eq_ok_iff] at hinfer
    obtain ⟨input, hinput, -, -, hty⟩ := hinfer
    cases hinput
    exact (List.cons.inj hty).1
  simp only [reverseCall, callStopsGradient, hfloat, localContribution] at hok
  cases hok
  rw [← hty] at htwo hfloat hgrad ⊢
  have hnumeric := ElementType.isNumeric_of_isFloat hfloat
  have htwice := Evaluates.binary_right .mul hnumeric (broadcastsTo_nil x.ty.shape)
    (Evaluates.const A noCalls F.values "2.0" x.ty.elem) harg.evaluates
  refine (Balanced.single harg hfloat (hgrad.mul hnumeric htwice)).congr ?_
  refine Finset.sum_congr rfl fun i _ => ?_
  rw [htangent]
  show g i * (A.literal "2.0" x.ty.elem * (x.entry i).fst) * (x.entry i).snd =
    g i * (x.entry i * x.entry i).snd
  rw [htwo, TrivSqZeroExt.snd_mul, smul_eq_mul, MulOpposite.smul_eq_mul_unop,
    MulOpposite.unop_op]
  ring

/-- Sums. -/
theorem sum_balanced {axis : AxisSpec} (henv : Env.Extends env F.types)
    (harg : F.Follows arg x) (hfloat : t.ty.elem.isFloat = true)
    (hinfer : inferCallResults (.sum axis) [x.ty] = .ok [t.ty])
    (hdual : A.dualCall (.sum axis) [x] = some [t])
    (hgrad : Evaluates A noCalls F.values grad t.ty g)
    (hok : reverseSum env [arg] t.ty axis grad = .ok cs) :
    F.Balanced [arg] cs (Arrays.inner t.ty.shape g t.tangent) := by
  have htangent := tangent_eq_of_dualCall (by simp) hinfer hdual
  obtain ⟨hfits, hty, -⟩ := reductionTypes_of_inferCallResults rfl hinfer
  cases exists_exprTy_of_bind henv harg hok
  rw [hty] at hgrad hfloat ⊢
  refine (Balanced.single harg hfloat (evaluates_expandReductionGrad hfits hgrad)).congr ?_
  have hsum := inner_members (t := axis.reduce x.ty.shape) (fun _ hj => axis.inBounds_reduce hj)
    g x.tangent fun _ _ => 1
  simp only [one_mul, mul_one] at hsum
  rw [← hsum]
  refine inner_congr (fun _ _ => rfl) fun i hi => ?_
  rw [htangent]
  show _ = (x.sum axis i).snd
  rw [Tensor.sum_eq_members x hfits hi]
  exact (TrivSqZeroExt.snd_sum _ _).symm

/-- Reshapes, squeezes and unsqueezes. -/
theorem reshape_balanced {op : CallOp} {target : TensorType}
    (hop : op = .reshape target ∨ op = .squeeze target ∨ op = .unsqueeze target)
    (henv : Env.Extends env F.types) (harg : F.Follows arg x)
    (hfloat : t.ty.elem.isFloat = true) (hexact : exactSizes op [x.ty] = true)
    (hinfer : inferCallResults op [x.ty] = .ok [t.ty]) (hdual : A.dualCall op [x] = some [t])
    (hgrad : Evaluates A noCalls F.values grad t.ty g)
    (hok : reverseReshape env [arg] grad = .ok cs) :
    F.Balanced [arg] cs (Arrays.inner t.ty.shape g t.tangent) := by
  have htangent := tangent_eq_of_dualCall
    (by rcases hop with rfl | rfl | rfl <;> simp) hinfer hdual
  obtain ⟨hty, helem, hprod⟩ := layout_of_inferCallResults hop hexact hinfer
  cases exists_exprTy_of_bind henv harg hok
  have hgrad' : Evaluates A noCalls F.values grad ⟨x.ty.elem, t.ty.shape⟩ g :=
    hgrad.congr_type (by rw [helem])
  refine Balanced.moved harg (helem ▸ hfloat) ?_ (fun i _ => ?_)
    (reshape_gradient hprod hgrad')
  · exact mapsBox_operandMap (MovementTyped.reshape hprod) 0
  · rw [htangent]
    show _ = x.tangent (unravel x.ty.shape (ravel t.ty.shape i))
    rw [hty]
    rcases hop with rfl | rfl | rfl <;> rfl

/-- Broadcasts. -/
theorem broadcast_balanced {target : TensorType} (henv : Env.Extends env F.types)
    (harg : F.Follows arg x) (hfloat : t.ty.elem.isFloat = true)
    (hinfer : inferCallResults (.broadcast target) [x.ty] = .ok [t.ty])
    (hdual : A.dualCall (.broadcast target) [x] = some [t])
    (hgrad : Evaluates A noCalls F.values grad t.ty g)
    (hok : reverseBroadcast env [arg] t.ty grad = .ok cs) :
    F.Balanced [arg] cs (Arrays.inner t.ty.shape g t.tangent) := by
  have htangent := tangent_eq_of_dualCall (by simp) hinfer hdual
  obtain ⟨e, he, hok⟩ := except_bind_eq_ok_iff.mp (exists_exprTy_of_bind henv harg hok)
  cases hok
  refine (Balanced.unbroadcast harg hfloat hgrad he).congr (inner_congr (fun _ _ => rfl) fun i _ => ?_)
  rw [htangent]
  rfl

/-- Slices. -/
theorem slice_balanced {target : TensorType} {starts : List ℕ} (henv : Env.Extends env F.types)
    (harg : F.Follows arg x) (hfloat : t.ty.elem.isFloat = true)
    (hexact : exactSizes (.slice target starts) [x.ty] = true)
    (hinfer : inferCallResults (.slice target starts) [x.ty] = .ok [t.ty])
    (hdual : A.dualCall (.slice target starts) [x] = some [t])
    (hgrad : Evaluates A noCalls F.values grad t.ty g)
    (hok : reverseSlice env [arg] starts grad = .ok cs) :
    F.Balanced [arg] cs (Arrays.inner t.ty.shape g t.tangent) := by
  have htangent := tangent_eq_of_dualCall (by simp) hinfer hdual
  obtain rfl : t.ty = target := (List.cons.inj (inferCallResults_slice hinfer)).1
  obtain ⟨hfits, hdims⟩ : WindowFits starts t.ty.shape x.ty.shape ∧ UsizeDims x.ty.shape :=
    of_decide_eq_true hexact
  have helem : x.ty.elem = t.ty.elem := by
    simp only [inferCallResults, except_bind_eq_ok_iff, expectUnary_eq_ok_iff] at hinfer
    obtain ⟨input, hinput, _, hslice, -⟩ := hinfer
    cases hinput
    exact (validateSlice_eq_ok_iff_usize.mp hslice).1
  cases exists_exprTy_of_bind henv harg hok
  have hgrad' : Evaluates A noCalls F.values grad ⟨x.ty.elem, t.ty.shape⟩ g :=
    hgrad.congr_type (by rw [helem])
  refine Balanced.moved harg (helem ▸ hfloat) ?_ (fun i _ => ?_)
    (slice_gradient hfits hdims hgrad')
  · exact mapsBox_operandMap (MovementTyped.slice hfits) 0
  · rw [htangent]
    rfl

/-- Operations that no gradient passes do not move. -/
theorem stopped_balanced {op : CallOp} (hop : op = .detach ∨ op = .zerosLike ∨ op = .onesLike)
    (hinfer : inferCallResults op [x.ty] = .ok [t.ty]) (hdual : A.dualCall op [x] = some [t]) :
    F.Balanced [arg] [] (Arrays.inner t.ty.shape g t.tangent) := by
  have hstill : ∀ i, t.tangent i = 0 := by
    intro i
    rcases hop with rfl | rfl | rfl
    · unfold Arithmetic.dualCall Arithmetic.call at hdual
      rw [List.map_singleton, hinfer] at hdual
      obtain ⟨ht, -⟩ := List.cons.inj (Option.some.inj hdual)
      rw [← ht]
      rfl
    · exact (tangent_eq_of_dualCall (by simp) hinfer hdual i).trans TrivSqZeroExt.snd_zero
    · exact (tangent_eq_of_dualCall (by simp) hinfer hdual i).trans TrivSqZeroExt.snd_one
  have hzero : Arrays.inner t.ty.shape g t.tangent = 0 := by
    rw [inner_congr (fun _ _ => rfl) fun i _ => hstill i, Arrays.inner_zero_right]
  rw [hzero]
  exact Balanced.nil [arg]

/-! ## The rules -/

/-- The rules of operations keep the pairing. -/
theorem reverseCall_balanced {name : String} {op : CallOp} {args : List Expr}
    (htwo : ∀ elem, A.literal "2.0" elem = 2) (henv : Env.Extends env F.types)
    (h : F.Follows (.call op args) t) (hfloat : t.ty.elem.isFloat = true)
    (hgrad : Evaluates A noCalls F.values grad t.ty g)
    (hok : reverseCall env ⟨name, .call op args, t.ty⟩ op args grad = .ok cs) :
    F.Balanced args cs (Arrays.inner t.ty.shape g t.tangent) := by
  by_cases hsplit : ∃ axis sections, op = .split axis sections
  · -- a split is flattened into slices; there is no rule for it
    obtain ⟨axis, sections, rfl⟩ := hsplit
    simp [reverseCall, callStopsGradient, hfloat] at hok
  obtain ⟨arg, x, rfl, harg, hop, hexact, hinfer, hdual⟩ :=
    h.call fun axis sections heq => hsplit ⟨axis, sections, heq⟩
  cases op with
  | square => exact square_balanced (htwo _) harg hfloat hinfer hdual hgrad hok
  | sum axis =>
      simp only [reverseCall, callStopsGradient, hfloat] at hok
      exact sum_balanced henv harg hfloat hinfer hdual hgrad hok
  | reshape target =>
      simp only [reverseCall, callStopsGradient, hfloat] at hok
      exact reshape_balanced (.inl rfl) henv harg hfloat hexact hinfer hdual hgrad hok
  | squeeze target =>
      simp only [reverseCall, callStopsGradient, hfloat] at hok
      exact reshape_balanced (.inr (.inl rfl)) henv harg hfloat hexact hinfer hdual hgrad hok
  | unsqueeze target =>
      simp only [reverseCall, callStopsGradient, hfloat] at hok
      exact reshape_balanced (.inr (.inr rfl)) henv harg hfloat hexact hinfer hdual hgrad hok
  | broadcast target =>
      simp only [reverseCall, callStopsGradient, hfloat] at hok
      exact broadcast_balanced henv harg hfloat hinfer hdual hgrad hok
  | slice target starts =>
      simp only [reverseCall, callStopsGradient, hfloat] at hok
      exact slice_balanced henv harg hfloat hexact hinfer hdual hgrad hok
  | detach | zerosLike | onesLike =>
      simp only [reverseCall, callStopsGradient, hfloat] at hok
      cases hok
      exact stopped_balanced (by simp) hinfer hdual
  | split axis sections => exact absurd ⟨axis, sections, rfl⟩ hsplit
  | graph name => cases hinfer
  | _ => cases hop

/-- **A node keeps the pairing**: what it passes on to its operands has, in all, the
pairing of its gradient with its own tangent. -/
theorem nodeContributions_balanced {node : Node} (htwo : ∀ elem, A.literal "2.0" elem = 2)
    (henv : Env.Extends env F.types) (h : F.Follows node.expr t) (hty : t.ty = node.ty)
    (hfloat : node.ty.elem.isFloat = true) (hgrad : Evaluates A noCalls F.values grad node.ty g)
    (hok : nodeContributions env node grad = .ok cs) :
    F.Balanced node.expr.operands cs (Arrays.inner node.ty.shape g t.tangent) := by
  obtain ⟨name, e, ty⟩ := node
  dsimp only at h hty hfloat hgrad ⊢
  subst hty
  cases e with
  | var source =>
      cases hok
      exact Balanced.single h hfloat hgrad
  | const value elem =>
      cases hok
      have ht := h.dual
      rw [evalTensor_const] at ht
      obtain rfl := Option.some.inj ht
      have hzero : Arrays.inner [] g (fun _ : List ℕ => (0 : R)) = 0 := Arrays.inner_zero_right g
      exact hzero.symm ▸ Balanced.nil []
  | unary op value =>
      cases op
      cases hok
      obtain ⟨x, hx, hxt, ht⟩ := h.neg
      refine (Balanced.single hx (hxt ▸ hfloat)
        (hxt ▸ hgrad.neg (ElementType.isNumeric_of_isFloat hfloat))).congr ?_
      rw [hxt]
      refine Finset.sum_congr rfl fun i _ => ?_
      have htangent : t.tangent i = -x.tangent i := by
        conv_lhs => rw [ht]
        rfl
      rw [htangent, neg_mul_comm]
  | binary op lhs rhs => exact reverseBinary_balanced henv h rfl hfloat hgrad hok
  | call op args => exact reverseCall_balanced htwo henv h hfloat hgrad hok
  | node nodeId value => cases hok
  | tupleGet tupleId value index => cases hok

end Moving

end Autograd

end Knok
