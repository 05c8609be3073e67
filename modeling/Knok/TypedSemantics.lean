import Mathlib
import Knok.Typing

/-!
# Semantics that respect the type rules

A typed semantics interprets the primitive operations over values that have a
tensor type: an operation is defined on arguments that the type rules accept,
and its results have the inferred types.  Nothing else is asked of it, except
that the outputs of a split are the slices of its argument, where these are
defined.

Two consequences are used by every pass that produces a graph:

* `TypedSemantics.exists_evalGraph`: a well-typed graph has a value;
* `solves_of_evalLets`: when no let rebinds a name, the environment in which the
  lets end is a solution of all of them at once, so that the order of the lets
  can be forgotten.
-/

namespace Knok

open Control

universe u

variable {V : Type u}

/-! ## Typed semantics -/

/-- The slices of a value along an axis, one for each output type of a split. -/
def splitSlices (call : CallOp → List V → Option (List V)) (axis rank : ℕ) (v : V) :
    ℕ → List TensorType → Option (List V)
  | _, [] => some []
  | offset, ty :: tys => do
      let w ← (call (.slice ty ((List.replicate rank 0).set axis offset)) [v]).bind single
      let ws ← splitSlices call axis rank v (usizeAdd offset (ty.dim axis)) tys
      return w :: ws

/-- A semantics whose operations are defined where the type rules accept their
arguments. -/
structure TypedSemantics (V : Type u) extends OpSemantics V where
  typeOf : V → TensorType
  const_typed : ∀ value elem, ∃ v, const value elem = some v ∧ typeOf v = ⟨elem, []⟩
  unary_typed : ∀ op v, (typeOf v).elem.isNumeric = true →
    ∃ w, unary op v = some w ∧ typeOf w = typeOf v
  binary_typed : ∀ op l r ty, binaryResultType (typeOf l) (typeOf r) = .ok ty →
    ∃ w, binary op l r = some w ∧ typeOf w = ty
  call_typed : ∀ op vs tys, inferCallResults op (vs.map typeOf) = .ok tys →
    ∃ ws, call op vs = some ws ∧ ws.map typeOf = tys
  split_slices : ∀ axis sections v tys ws,
    inferCallResults (.split axis sections) [typeOf v] = .ok tys →
      splitSlices call axis (typeOf v).rank v 0 tys = some ws →
        call (.split axis sections) [v] = some ws

theorem inferCallResults_slice {target ty : TensorType} {starts : List ℕ} {tys : List TensorType}
    (h : inferCallResults (.slice target starts) [ty] = .ok tys) : tys = [target] := by
  simp only [inferCallResults, except_bind_eq_ok_iff, except_pure_eq_ok_iff] at h
  obtain ⟨-, -, -, -, rfl⟩ := h
  rfl

/-- The slices of a type are the types of the sections. -/
theorem splitSlices_types {axis rank : ℕ} {v : TensorType} {tys : List TensorType} :
    ∀ {offset : ℕ} {ws : List TensorType},
      splitSlices (fun op tys => (inferCallResults op tys).toOption) axis rank v offset tys =
        some ws → ws = tys := by
  induction tys with
  | nil =>
      intro offset ws h
      exact (Option.some.inj h).symm
  | cons ty tys ih =>
      intro offset ws h
      simp only [splitSlices, Option.bind_eq_bind, Option.bind_eq_some_iff] at h
      obtain ⟨w, ⟨results, hresults, hsingle⟩, ws', hrest, hcons⟩ := h
      have hslice := inferCallResults_slice (except_toOption_eq_some_iff.mp hresults)
      obtain rfl := single_eq_some_iff.mp hsingle
      obtain rfl : w = ty := List.head_eq_of_cons_eq hslice
      cases hcons
      rw [ih hrest]

/-- Tensor types are values of themselves. -/
def typeSemantics : TypedSemantics TensorType where
  const _ elem := some ⟨elem, []⟩
  unary _ ty := some ty
  binary _ lhs rhs := (binaryResultType lhs rhs).toOption
  call op tys := (inferCallResults op tys).toOption
  typeOf := id
  const_typed _ _ := ⟨_, rfl, rfl⟩
  unary_typed _ ty _ := ⟨ty, rfl, rfl⟩
  binary_typed _ lhs rhs ty h := ⟨ty, by rw [id_eq, id_eq] at h; rw [h]; rfl, rfl⟩
  call_typed op tys results h := ⟨results, by rw [List.map_id] at h; rw [h]; rfl, List.map_id _⟩
  split_slices axis sections ty tys ws h hslices := by
    rw [id_eq] at h
    rw [splitSlices_types hslices, h]
    rfl

/-- No calls to other graphs. -/
def noCalls : Calls V := fun _ _ => none

theorem OpSemantics.strict (S : OpSemantics V) : S.toInterp.Strict :=
  fun _ _ => rfl

/-! ## Checked arguments -/

namespace OpSemantics

variable (S : OpSemantics V)

/-- The interpretation that checks the arguments of a static creation, as the
type checker does, before it looks at their values. -/
def checkedInterp : Interp V where
  const := S.const
  unary := S.unary
  binary := S.binary
  call op args vs :=
    match validateStaticCreationCall op args with
    | .ok () => vs.bind (S.call op)
    | .error _ => none

variable {S} {calls : Calls V} {env : Env V}

theorem evalArgs_of_checked {args : List Expr}
    (ih : ∀ arg ∈ args, ∀ vs, evalOutputs S.checkedInterp calls env arg = some vs →
      evalOutputs S.toInterp calls env arg = some vs) :
    ∀ vs, evalArgs S.checkedInterp calls env args = some vs →
      evalArgs S.toInterp calls env args = some vs := by
  induction args with
  | nil => exact fun _ h => h
  | cons arg args ihargs =>
      intro vs h
      simp only [evalArgs, Option.bind_eq_bind, Option.bind_eq_some_iff] at h ⊢
      obtain ⟨v, ⟨outputs, houtputs, hsingle⟩, rest, hrest, hvs⟩ := h
      exact ⟨v, ⟨outputs, ih arg (List.mem_cons_self ..) _ houtputs, hsingle⟩, rest,
        ihargs (fun a ha => ih a (List.mem_cons_of_mem _ ha)) rest hrest, hvs⟩

/-- **The check only rejects**: where it passes, the value is the same. -/
theorem evalOutputs_of_checked (e : Expr) :
    ∀ vs, evalOutputs S.checkedInterp calls env e = some vs →
      evalOutputs S.toInterp calls env e = some vs := by
  induction e with
  | var name => exact fun _ h => h
  | const value elem => exact fun _ h => h
  | unary op value ih =>
      intro vs h
      simp only [evalOutputs, Option.bind_eq_bind, Option.bind_eq_some_iff] at h ⊢
      obtain ⟨v, ⟨outputs, houtputs, hsingle⟩, hrest⟩ := h
      exact ⟨v, ⟨outputs, ih _ houtputs, hsingle⟩, hrest⟩
  | binary op lhs rhs ihl ihr =>
      intro vs h
      simp only [evalOutputs, Option.bind_eq_bind, Option.bind_eq_some_iff] at h ⊢
      obtain ⟨l, ⟨ls, hls, hl⟩, r, ⟨rs, hrs, hr⟩, hrest⟩ := h
      exact ⟨l, ⟨ls, ihl _ hls, hl⟩, r, ⟨rs, ihr _ hrs, hr⟩, hrest⟩
  | node nodeId value ih => exact ih
  | tupleGet tupleId value index ih =>
      intro vs h
      simp only [evalOutputs, Option.bind_eq_bind, Option.bind_eq_some_iff] at h ⊢
      obtain ⟨outputs, houtputs, hrest⟩ := h
      exact ⟨outputs, ih _ houtputs, hrest⟩
  | call op args ih =>
      intro vs h
      rcases op.eq_graph_or with ⟨name, rfl⟩ | hop
      · rw [evalOutputs_graph, Option.bind_eq_some_iff] at h ⊢
        obtain ⟨ws, hws, hcall⟩ := h
        exact ⟨ws, evalArgs_of_checked ih ws hws, hcall⟩
      · rw [evalOutputs_call _ _ _ hop] at h ⊢
        simp only [checkedInterp] at h
        split at h
        · obtain ⟨ws, hws, hcall⟩ := Option.bind_eq_some_iff.mp h
          rw [OpSemantics.toInterp_call, evalArgs_of_checked ih ws hws]
          exact hcall
        · cases h

theorem evalTensor_of_checked {e : Expr} {v : V}
    (h : evalTensor S.checkedInterp calls env e = some v) :
    evalTensor S.toInterp calls env e = some v := by
  obtain ⟨vs, hvs, hsingle⟩ := Option.bind_eq_some_iff.mp h
  exact Option.bind_eq_some_iff.mpr ⟨vs, evalOutputs_of_checked e vs hvs, hsingle⟩

variable {typeCalls : Calls TensorType} {types : Env TensorType}

theorem evalArgs_checked_of_typed {args : List Expr}
    (ih : ∀ arg ∈ args, ∀ tys, evalOutputs typeInterp typeCalls types arg = some tys →
      evalOutputs S.checkedInterp calls env arg = evalOutputs S.toInterp calls env arg) :
    ∀ tys, evalArgs typeInterp typeCalls types args = some tys →
      evalArgs S.checkedInterp calls env args = evalArgs S.toInterp calls env args := by
  induction args with
  | nil => exact fun _ _ => rfl
  | cons arg args ihargs =>
      intro tys h
      simp only [evalArgs, Option.bind_eq_bind, Option.bind_eq_some_iff] at h
      obtain ⟨ty, ⟨outputs, houtputs, -⟩, rest, hrest, -⟩ := h
      rw [evalArgs, evalArgs, ih arg (List.mem_cons_self ..) outputs houtputs,
        ihargs (fun a ha => ih a (List.mem_cons_of_mem _ ha)) rest hrest]

/-- **Typed expressions pass the check.** -/
theorem evalOutputs_checked_of_typed (e : Expr) :
    ∀ tys, evalOutputs typeInterp typeCalls types e = some tys →
      evalOutputs S.checkedInterp calls env e = evalOutputs S.toInterp calls env e := by
  induction e with
  | var name => exact fun _ _ => rfl
  | const value elem => exact fun _ _ => rfl
  | unary op value ih =>
      intro tys h
      simp only [evalOutputs, Option.bind_eq_bind, Option.bind_eq_some_iff] at h
      obtain ⟨ty, ⟨outputs, houtputs, -⟩, -⟩ := h
      rw [evalOutputs, evalOutputs, ih outputs houtputs]
      rfl
  | binary op lhs rhs ihl ihr =>
      intro tys h
      simp only [evalOutputs, Option.bind_eq_bind, Option.bind_eq_some_iff] at h
      obtain ⟨l, ⟨ls, hls, -⟩, r, ⟨rs, hrs, -⟩, -⟩ := h
      rw [evalOutputs, evalOutputs, ihl ls hls, ihr rs hrs]
      rfl
  | node nodeId value ih => exact ih
  | tupleGet tupleId value index ih =>
      intro tys h
      simp only [evalOutputs, Option.bind_eq_bind, Option.bind_eq_some_iff] at h
      obtain ⟨outputs, houtputs, -⟩ := h
      rw [evalOutputs, evalOutputs, ih outputs houtputs]
  | call op args ih =>
      intro tys h
      rcases op.eq_graph_or with ⟨name, rfl⟩ | hop
      · rw [evalOutputs_graph, Option.bind_eq_some_iff] at h
        obtain ⟨argTys, hargs, -⟩ := h
        rw [evalOutputs_graph, evalOutputs_graph, evalArgs_checked_of_typed ih argTys hargs]
      · rw [evalOutputs_call _ _ _ hop] at h
        simp only [typeInterp, Option.bind_eq_bind, Option.bind_eq_some_iff] at h
        obtain ⟨u, hvalid, argTys, hargs, -⟩ := h
        rw [evalOutputs_call _ _ _ hop, evalOutputs_call _ _ _ hop,
          evalArgs_checked_of_typed ih argTys hargs, OpSemantics.toInterp_call]
        simp only [checkedInterp, except_toOption_eq_some_iff.mp hvalid]

theorem evalTensor_checked_of_typed {e : Expr} {ty : TensorType}
    (h : evalTensor typeInterp typeCalls types e = some ty) :
    evalTensor S.checkedInterp calls env e = evalTensor S.toInterp calls env e := by
  obtain ⟨tys, htys, -⟩ := Option.bind_eq_some_iff.mp h
  rw [evalTensor, evalTensor, evalOutputs_checked_of_typed e tys htys]

theorem exists_evalOutputs_of_evalArgs {args : List Expr} {vs : List V}
    (h : evalArgs S.checkedInterp calls env args = some vs) :
    ∀ arg ∈ args, ∃ ws, evalOutputs S.checkedInterp calls env arg = some ws := by
  induction args generalizing vs with
  | nil => exact fun arg harg => absurd harg List.not_mem_nil
  | cons first args ih =>
      simp only [evalArgs, Option.bind_eq_bind, Option.bind_eq_some_iff] at h
      obtain ⟨v, ⟨outputs, houtputs, -⟩, rest, hrest, -⟩ := h
      intro arg harg
      rcases List.mem_cons.mp harg with rfl | harg
      · exact ⟨outputs, houtputs⟩
      · exact ih hrest arg harg

/-- A call that has a value passes its check, and its arguments have values. -/
theorem checked_of_evalOutputs_call {op : CallOp} {args : List Expr} {vs : List V}
    (h : evalOutputs S.checkedInterp calls env (.call op args) = some vs) :
    validateStaticCreationCall op args = .ok () ∧
      ∃ ws, evalArgs S.checkedInterp calls env args = some ws := by
  rcases op.eq_graph_or with ⟨name, rfl⟩ | hop
  · rw [evalOutputs_graph, Option.bind_eq_some_iff] at h
    obtain ⟨ws, hws, -⟩ := h
    exact ⟨rfl, ws, hws⟩
  · rw [evalOutputs_call _ _ _ hop] at h
    simp only [checkedInterp] at h
    split at h
    next hvalid =>
      obtain ⟨ws, hws, -⟩ := Option.bind_eq_some_iff.mp h
      exact ⟨hvalid, ws, hws⟩
    next => cases h

/-- **All parts of an expression that has a value have values.** -/
theorem exists_evalOutputs_of_mem_subexprs {e s : Expr} (hs : s ∈ e.subexprs) {vs : List V}
    (h : evalOutputs S.checkedInterp calls env e = some vs) :
    ∃ ws, evalOutputs S.checkedInterp calls env s = some ws := by
  induction e generalizing vs with
  | var name =>
      obtain rfl : s = .var name := by simpa [Expr.subexprs] using hs
      exact ⟨vs, h⟩
  | const value elem =>
      obtain rfl : s = .const value elem := by simpa [Expr.subexprs] using hs
      exact ⟨vs, h⟩
  | unary op value ih =>
      rcases List.mem_cons.mp hs with rfl | hs
      · exact ⟨vs, h⟩
      · simp only [evalOutputs, Option.bind_eq_bind, Option.bind_eq_some_iff] at h
        obtain ⟨v, ⟨outputs, houtputs, -⟩, -⟩ := h
        exact ih hs houtputs
  | binary op lhs rhs ihl ihr =>
      rcases List.mem_cons.mp hs with rfl | hs
      · exact ⟨vs, h⟩
      · simp only [evalOutputs, Option.bind_eq_bind, Option.bind_eq_some_iff] at h
        obtain ⟨l, ⟨ls, hls, -⟩, r, ⟨rs, hrs, -⟩, -⟩ := h
        rcases List.mem_append.mp hs with hs | hs
        · exact ihl hs hls
        · exact ihr hs hrs
  | node nodeId value ih =>
      rcases List.mem_cons.mp hs with rfl | hs
      · exact ⟨vs, h⟩
      · exact ih hs h
  | tupleGet tupleId value index ih =>
      rcases List.mem_cons.mp hs with rfl | hs
      · exact ⟨vs, h⟩
      · simp only [evalOutputs, Option.bind_eq_bind, Option.bind_eq_some_iff] at h
        obtain ⟨outputs, houtputs, -⟩ := h
        exact ih hs houtputs
  | call op args ih =>
      rcases List.mem_cons.mp hs with rfl | hs
      · exact ⟨vs, h⟩
      · obtain ⟨arg, harg, hs⟩ := Expr.mem_subexprsList.mp hs
        obtain ⟨-, argValues, hargs⟩ := checked_of_evalOutputs_call h
        obtain ⟨ws, hws⟩ := exists_evalOutputs_of_evalArgs hargs arg harg
        exact ih arg harg hs hws

end OpSemantics

namespace TypedSemantics

variable (S : TypedSemantics V)

/-- The interpretation of the operations. -/
abbrev interp : Interp V := S.toOpSemantics.toInterp

/-- Values have the types of the names they are bound to. -/
def EnvTyped (types : Env TensorType) (env : Env V) : Prop :=
  ∀ name ty, types name = some ty → ∃ v, env name = some v ∧ S.typeOf v = ty

/-- Typed calls have values of the types they return. -/
def CallsTyped (types : Calls TensorType) (calls : Calls V) : Prop :=
  ∀ name vs tys, types name (vs.map S.typeOf) = some tys →
    ∃ ws, calls name vs = some ws ∧ ws.map S.typeOf = tys

theorem callsTyped_noCalls (calls : Calls V) : S.CallsTyped noCalls calls := by
  intro name vs tys h
  cases h

variable {S} {types : Env TensorType} {env : Env V} {typeCalls : Calls TensorType}
  {calls : Calls V}

theorem EnvTyped.update (h : S.EnvTyped types env) (name : String) (v : V) :
    S.EnvTyped (Function.update types name (some (S.typeOf v)))
      (Function.update env name (some v)) := by
  intro other ty hty
  by_cases hname : other = name
  · subst hname
    rw [Function.update_self, Option.some.injEq] at hty
    exact ⟨v, Function.update_self .., hty⟩
  · rw [Function.update_of_ne hname] at hty ⊢
    exact h other ty hty

theorem EnvTyped.bindNames (h : S.EnvTyped types env) (names : List String) :
    ∀ vs : List V, S.EnvTyped (bindNames types names (vs.map S.typeOf))
      (Knok.bindNames env names vs) := by
  induction names generalizing types env with
  | nil => intro vs; exact h
  | cons name names ih =>
      intro vs
      cases vs with
      | nil => exact h
      | cons v vs => exact ih (h.update name v) vs

/-- The value of a tensor expression, from its outputs. -/
theorem exists_tensor_of_outputs {e : Expr} {ty : TensorType}
    (ih : ∀ tys, evalOutputs typeInterp typeCalls types e = some tys →
      ∃ vs, evalOutputs S.interp calls env e = some vs ∧ vs.map S.typeOf = tys)
    (h : (evalOutputs typeInterp typeCalls types e).bind single = some ty) :
    ∃ v, (evalOutputs S.interp calls env e).bind single = some v ∧ S.typeOf v = ty := by
  obtain ⟨tys, htys, hsingle⟩ := Option.bind_eq_some_iff.mp h
  obtain ⟨vs, hvs, hmap⟩ := ih tys htys
  rw [single_eq_some_iff.mp hsingle, List.map_eq_singleton_iff] at hmap
  obtain ⟨v, rfl, hv⟩ := hmap
  exact ⟨v, by rw [hvs]; rfl, hv⟩

theorem exists_evalArgs {args : List Expr}
    (ih : ∀ arg ∈ args, ∀ tys, evalOutputs typeInterp typeCalls types arg = some tys →
      ∃ vs, evalOutputs S.interp calls env arg = some vs ∧ vs.map S.typeOf = tys) :
    ∀ tys, evalArgs typeInterp typeCalls types args = some tys →
      ∃ vs, evalArgs S.interp calls env args = some vs ∧ vs.map S.typeOf = tys := by
  induction args with
  | nil =>
      intro tys h
      cases h
      exact ⟨[], rfl, rfl⟩
  | cons arg args ihargs =>
      intro tys h
      simp only [evalArgs, Option.bind_eq_bind, Option.bind_eq_some_iff] at h
      obtain ⟨ty, ⟨outputs, houtputs, hsingle⟩, rest, hrest, hcons⟩ := h
      cases hcons
      obtain ⟨v, hv, hty⟩ := exists_tensor_of_outputs (ih arg (List.mem_cons_self ..))
        (by rw [houtputs]; exact hsingle)
      obtain ⟨vs, hvs, hmap⟩ := ihargs (fun a ha => ih a (List.mem_cons_of_mem _ ha)) rest hrest
      refine ⟨v :: vs, ?_, by rw [List.map_cons, hty, hmap]⟩
      rw [evalArgs, hv, hvs]
      rfl

/-- **A typed expression has values of its types.** -/
theorem exists_evalOutputs (hcalls : S.CallsTyped typeCalls calls)
    (henv : S.EnvTyped types env) (e : Expr) :
    ∀ tys, evalOutputs typeInterp typeCalls types e = some tys →
      ∃ vs, evalOutputs S.interp calls env e = some vs ∧ vs.map S.typeOf = tys := by
  induction e with
  | var name =>
      intro tys h
      simp only [evalOutputs, Option.bind_eq_bind, Option.bind_eq_some_iff] at h
      obtain ⟨ty, hty, hcons⟩ := h
      cases hcons
      obtain ⟨v, hv, rfl⟩ := henv name ty hty
      exact ⟨[v], by rw [evalOutputs, hv]; rfl, rfl⟩
  | const value elem =>
      intro tys h
      cases h
      obtain ⟨v, hv, hty⟩ := S.const_typed value elem
      refine ⟨[v], ?_, by rw [List.map_singleton, hty]⟩
      change (S.const value elem).bind (fun v => some [v]) = some [v]
      rw [hv]
      rfl
  | unary op value ih =>
      intro tys h
      simp only [evalOutputs, Option.bind_eq_bind, Option.bind_eq_some_iff] at h
      obtain ⟨ty, htensor, result, hresult, hcons⟩ := h
      cases hcons
      obtain ⟨v, hv, rfl⟩ := exists_tensor_of_outputs ih (Option.bind_eq_some_iff.mpr htensor)
      have hnumeric : (S.typeOf v).elem.isNumeric = true ∧ S.typeOf v = result := by
        simpa [typeInterp, expectNumericElement, Option.bind_eq_some_iff] using hresult
      obtain ⟨w, hw, hty⟩ := S.unary_typed op v hnumeric.1
      refine ⟨[w], ?_, by rw [List.map_singleton, hty, hnumeric.2]⟩
      rw [evalOutputs, hv]
      change (S.unary op v).bind (fun w => some [w]) = some [w]
      rw [hw]
      rfl
  | binary op lhs rhs ihl ihr =>
      intro tys h
      simp only [evalOutputs, Option.bind_eq_bind, Option.bind_eq_some_iff] at h
      obtain ⟨lhsTy, hlhs, rhsTy, hrhs, result, hresult, hcons⟩ := h
      cases hcons
      obtain ⟨l, hl, rfl⟩ := exists_tensor_of_outputs ihl (Option.bind_eq_some_iff.mpr hlhs)
      obtain ⟨r, hr, rfl⟩ := exists_tensor_of_outputs ihr (Option.bind_eq_some_iff.mpr hrhs)
      obtain ⟨w, hw, hty⟩ := S.binary_typed op l r result
        (except_toOption_eq_some_iff.mp hresult)
      refine ⟨[w], ?_, by rw [List.map_singleton, hty]⟩
      rw [evalOutputs, hl, hr]
      change (S.binary op l r).bind (fun w => some [w]) = some [w]
      rw [hw]
      rfl
  | node nodeId value ih => exact ih
  | tupleGet tupleId value index ih =>
      intro tys h
      simp only [evalOutputs, Option.bind_eq_bind, Option.bind_eq_some_iff] at h
      obtain ⟨outputs, houtputs, ty, hty, hcons⟩ := h
      cases hcons
      obtain ⟨vs, hvs, rfl⟩ := ih outputs houtputs
      rw [List.getElem?_map, Option.map_eq_some_iff] at hty
      obtain ⟨v, hv, rfl⟩ := hty
      exact ⟨[v], by rw [evalOutputs, hvs]; simp [hv], rfl⟩
  | call op args ih =>
      intro tys h
      rcases op.eq_graph_or with ⟨name, rfl⟩ | hop
      · rw [evalOutputs_graph, Option.bind_eq_some_iff] at h
        obtain ⟨argTys, hargs, hcall⟩ := h
        obtain ⟨vs, hvs, rfl⟩ := exists_evalArgs ih argTys hargs
        obtain ⟨ws, hws, hmap⟩ := hcalls name vs tys hcall
        exact ⟨ws, by rw [evalOutputs_graph, hvs]; exact hws, hmap⟩
      · rw [evalOutputs_call _ _ _ hop] at h
        simp only [typeInterp, Option.bind_eq_bind, Option.bind_eq_some_iff] at h
        obtain ⟨-, -, argTys, hargs, hinfer⟩ := h
        obtain ⟨vs, hvs, rfl⟩ := exists_evalArgs ih argTys hargs
        obtain ⟨ws, hws, hmap⟩ := S.call_typed op vs tys
          (except_toOption_eq_some_iff.mp hinfer)
        refine ⟨ws, ?_, hmap⟩
        rw [evalOutputs_call _ _ _ hop, hvs]
        exact hws

/-- A typed tensor expression has a value of its type. -/
theorem exists_evalTensor (hcalls : S.CallsTyped typeCalls calls)
    (henv : S.EnvTyped types env) {e : Expr} {ty : TensorType}
    (h : evalTensor typeInterp typeCalls types e = some ty) :
    ∃ v, evalTensor S.interp calls env e = some v ∧ S.typeOf v = ty :=
  exists_tensor_of_outputs (exists_evalOutputs hcalls henv e) h

/-- Typed lets end in a typed environment. -/
theorem exists_evalLets (hcalls : S.CallsTyped typeCalls calls)
    {body : Env TensorType → Prop} {lets : List TypedLet} :
    ∀ {types : Env TensorType} {env : Env V}, S.EnvTyped types env →
      LetsTyped typeCalls types lets body →
      ∃ types' env', evalLets typeInterp typeCalls types (lets.map TypedLet.binding) =
          some types' ∧
        evalLets S.interp calls env (lets.map TypedLet.binding) = some env' ∧
          S.EnvTyped types' env' ∧ body types' := by
  induction lets with
  | nil =>
      intro types env henv htyped
      exact ⟨types, env, rfl, rfl, henv, htyped⟩
  | cons binding lets ih =>
      intro types env henv htyped
      obtain ⟨hvalue, hlen, hrest⟩ := htyped
      obtain ⟨vs, hvs, hmap⟩ := exists_evalOutputs hcalls henv binding.value.kind _ hvalue
      have henv' := henv.bindNames binding.names vs
      rw [hmap] at henv'
      obtain ⟨types', env', htypes, henvs, htyped', hbody⟩ := ih henv' hrest
      have hlen' : binding.names.length = vs.length := by
        rw [hlen, ← hmap, List.length_map]
      refine ⟨types', env', ?_, ?_, htyped', hbody⟩
      · rw [List.map_cons, evalLets, evalLet_eq_some_iff.mpr ⟨_, hvalue, hlen, rfl⟩]
        exact htypes
      · rw [List.map_cons, evalLets, evalLet_eq_some_iff.mpr ⟨vs, hvs, hlen', rfl⟩]
        exact henvs

theorem envTyped_inputEnv (graph : TypedGraph) {args : List V}
    (hargs : args.map S.typeOf = graph.inputs.map Input.ty) :
    S.EnvTyped (inputEnv graph (graph.inputs.map Input.ty)) (inputEnv graph args) := by
  have hempty : S.EnvTyped (fun _ => none) fun _ => none := by
    intro name ty h
    cases h
  rw [← hargs]
  exact hempty.bindNames _ args

end TypedSemantics

section Graphs

variable {S : TypedSemantics V} {typeCalls : Calls TensorType} {calls : Calls V}

/-- The outputs of a body, in a typed environment. -/
theorem exists_evalBody (hcalls : S.CallsTyped typeCalls calls) {types : Env TensorType}
    {env : Env V} (henv : S.EnvTyped types env) {body : List TypedExpr}
    (h : ∀ e ∈ body, evalTensor typeInterp typeCalls types e.kind = some e.ty) :
    ∃ vs, body.mapM (fun e => evalTensor S.interp calls env e.kind) = some vs ∧
      vs.map S.typeOf = body.map TypedExpr.ty := by
  induction body with
  | nil => exact ⟨[], rfl, rfl⟩
  | cons e body ih =>
      obtain ⟨v, hv, hty⟩ :=
        TypedSemantics.exists_evalTensor hcalls henv (h e (List.mem_cons_self ..))
      obtain ⟨vs, hvs, htys⟩ := ih fun f hf => h f (List.mem_cons_of_mem _ hf)
      exact ⟨v :: vs, by rw [List.mapM_cons, hv, hvs]; rfl,
        by rw [List.map_cons, List.map_cons, hty, htys]⟩

/-- **A well-typed graph has a value**, of the types it returns. -/
theorem TypedSemantics.exists_evalGraph (hcalls : S.CallsTyped typeCalls calls)
    {graph : TypedGraph} (h : WellTyped typeCalls graph) {args : List V}
    (hargs : args.map S.typeOf = graph.inputs.map Input.ty) :
    ∃ vs, evalGraph S.interp calls graph args = some vs ∧ vs.map S.typeOf = graph.outputs := by
  obtain ⟨types, env, -, henvs, henv, hbody⟩ := TypedSemantics.exists_evalLets hcalls
    (TypedSemantics.envTyped_inputEnv graph hargs) h.typed
  obtain ⟨vs, hvs, htys⟩ := exists_evalBody hcalls henv hbody
  have hlen : graph.inputs.length = args.length := by
    simpa using (congrArg List.length hargs).symm
  refine ⟨vs, ?_, htys.trans h.outputs⟩
  rw [evalGraph, if_pos hlen, henvs]
  exact hvs

end Graphs

/-! ## Solutions -/

/-- The names of a let have the values of its outputs. -/
def Solves (I : Interp V) (calls : Calls V) (env : Env V) (binding : Binding) : Prop :=
  ∃ vs, evalOutputs I calls env binding.2 = some vs ∧ binding.1.map env = vs.map some

theorem Solves.singleton {I : Interp V} {calls : Calls V} {env : Env V} {name : String}
    {e : Expr} (h : Solves I calls env ([name], e)) :
    ∃ v, evalTensor I calls env e = some v ∧ env name = some v := by
  obtain ⟨vs, hvs, hnames⟩ := h
  obtain ⟨v, rfl, hv⟩ := List.map_eq_singleton_iff.mp hnames.symm
  exact ⟨v, by rw [evalTensor, hvs]; rfl, hv.symm⟩

/-- The names of a let, in the environment after it. -/
theorem map_bindNames {env : Env V} {names : List String} {vs : List V}
    (hnodup : names.Nodup) (hlen : names.length = vs.length) :
    names.map (bindNames env names vs) = vs.map some := by
  refine List.ext_getElem? fun k => ?_
  rw [List.getElem?_map, List.getElem?_map]
  cases hname : names[k]? with
  | none =>
      have hk : vs.length ≤ k := hlen ▸ List.getElem?_eq_none_iff.mp hname
      rw [List.getElem?_eq_none hk]
      rfl
  | some name =>
      obtain ⟨hk, -⟩ := List.getElem?_eq_some_iff.mp hname
      have hk' : k < vs.length := hlen ▸ hk
      have hv : vs[k]? = some vs[k] := List.getElem?_eq_getElem _
      rw [hv, Option.map_some, Option.map_some, bindNames_getElem hnodup hname hv]

/-- **Lets that rebind nothing are solved by the environment they end in.** -/
theorem solves_of_evalLets {I : Interp V} (hstrict : I.Strict) {calls : Calls V}
    {bindings : List Binding} :
    ∀ {names : List String} {env env' : Env V}, Env.Binds env names →
      (bindings.flatMap Prod.fst).Nodup →
      (∀ name ∈ bindings.flatMap Prod.fst, name ∉ names) →
      evalLets I calls env bindings = some env' →
      Env.Extends env env' ∧ ∀ binding ∈ bindings, Solves I calls env' binding := by
  induction bindings with
  | nil =>
      intro names env env' _ _ _ heval
      cases heval
      exact ⟨fun _ _ h => h, by simp⟩
  | cons binding bindings ih =>
      intro names env env' hbinds hnodup hnew heval
      rw [List.flatMap_cons] at hnodup hnew
      obtain ⟨hnodup₁, hnodup₂, hdisjoint⟩ := List.nodup_append.mp hnodup
      obtain ⟨env₁, hfirst, hrest⟩ := Option.bind_eq_some_iff.mp heval
      obtain ⟨vs, hvs, hlen, rfl⟩ := evalLet_eq_some_iff.mp hfirst
      have hext₁ : Env.Extends env (bindNames env binding.1 vs) :=
        extends_bindNames
          (fun name hname => hbinds.eq_none (hnew name (List.mem_append_left _ hname))) vs
      obtain ⟨hext, hsolves⟩ := ih (hbinds.bindNames hlen) hnodup₂ (by
        intro name hname hmem
        rcases List.mem_append.mp hmem with hmem | hmem
        · exact hnew name (List.mem_append_right _ hname) hmem
        · exact hdisjoint name hmem name hname rfl) hrest
      have hext' : Env.Extends env env' := fun name v hv => hext name v (hext₁ name v hv)
      refine ⟨hext', fun other hother => ?_⟩
      rcases List.mem_cons.mp hother with rfl | hother
      · refine ⟨vs, evalOutputs_mono hstrict hext' hvs, ?_⟩
        rw [← map_bindNames hnodup₁ hlen]
        refine List.map_congr_left fun name hname => ?_
        have hbound := (hbinds.bindNames hlen name).mpr (List.mem_append_right _ hname)
        obtain ⟨v, hv⟩ := hbound
        rw [hv, hext name v hv]
      · exact hsolves other hother

end Knok
