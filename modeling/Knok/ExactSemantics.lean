import Mathlib
import Knok.Exact

/-!
# Exact arithmetic respects the type rules

Exact arithmetic is a typed semantics (`Arithmetic.semantics`).  Over the dual
numbers it computes formal derivatives: a tensor of dual numbers is a tensor with
a tangent, every operation of ring arithmetic moves with its operands, and the
operations that a ring says nothing about do not move.

### Design decisions

* **`detach` stops the tangent.**  The value that it returns is a constant
  (`Arithmetic.dualSemantics`); every other operation is the one of exact
  arithmetic over the dual numbers.
* **Primal parts.**  Forgetting the tangents is a homomorphism of semantics
  (`primalHom`), so that it commutes with the evaluation of every expression.
-/

namespace Knok

open Arrays Control

universe u

/-! ## Homomorphisms of semantics -/

section Hom

variable {V W : Type u}

/-- A map of values that commutes with every operation. -/
structure OpSemantics.Hom (S : OpSemantics V) (T : OpSemantics W) (f : V → W) : Prop where
  const : ∀ value elem, (S.const value elem).map f = T.const value elem
  unary : ∀ op v, (S.unary op v).map f = T.unary op (f v)
  binary : ∀ op l r, (S.binary op l r).map f = T.binary op (f l) (f r)
  call : ∀ op vs, (S.call op vs).map (List.map f) = T.call op (vs.map f)

variable {S : OpSemantics V} {T : OpSemantics W} {f : V → W} {env : Env V} {env' : Env W}

theorem map_bind_single (f : V → W) (x : Option (List V)) :
    (x.map (List.map f)).bind single = (x.bind single).map f := by
  match x with
  | none | some [] | some [_] | some (_ :: _ :: _) => rfl

theorem OpSemantics.Hom.evalArgs {args : List Expr}
    (ih : ∀ arg ∈ args, (evalOutputs S.toInterp noCalls env arg).map (List.map f) =
      evalOutputs T.toInterp noCalls env' arg) :
    (evalArgs S.toInterp noCalls env args).map (List.map f) =
      evalArgs T.toInterp noCalls env' args := by
  induction args with
  | nil => rfl
  | cons arg args ihargs =>
      have hargs := ihargs fun a ha => ih a (List.mem_cons_of_mem _ ha)
      rw [Knok.evalArgs, Knok.evalArgs, ← ih arg (List.mem_cons_self ..), ← hargs,
        map_bind_single]
      cases (evalOutputs S.toInterp noCalls env arg).bind single with
      | none => rfl
      | some v => cases Knok.evalArgs S.toInterp noCalls env args <;> rfl

/-- **A homomorphism commutes with evaluation.** -/
theorem OpSemantics.Hom.evalOutputs (h : S.Hom T f) (henv : ∀ name, (env name).map f = env' name)
    (e : Expr) :
    (evalOutputs S.toInterp noCalls env e).map (List.map f) =
      evalOutputs T.toInterp noCalls env' e := by
  have hone : ∀ x : Option V, (x.bind fun v => some [v]).map (List.map f) =
      (x.map f).bind fun w => some [w] := by
    intro x
    cases x <;> rfl
  induction e with
  | var name =>
      rw [Knok.evalOutputs, Knok.evalOutputs, ← henv]
      exact hone (env name)
  | const value elem =>
      rw [Knok.evalOutputs, Knok.evalOutputs]
      exact (hone (S.const value elem)).trans (by rw [h.const]; rfl)
  | unary op value ih =>
      rw [Knok.evalOutputs, Knok.evalOutputs, ← ih, map_bind_single]
      cases (Knok.evalOutputs S.toInterp noCalls env value).bind single with
      | none => rfl
      | some v => exact (hone (S.unary op v)).trans (by rw [h.unary]; rfl)
  | binary op lhs rhs ihl ihr =>
      rw [Knok.evalOutputs, Knok.evalOutputs, ← ihl, ← ihr, map_bind_single, map_bind_single]
      cases (Knok.evalOutputs S.toInterp noCalls env lhs).bind single with
      | none => rfl
      | some l =>
          cases (Knok.evalOutputs S.toInterp noCalls env rhs).bind single with
          | none => rfl
          | some r => exact (hone (S.binary op l r)).trans (by rw [h.binary]; rfl)
  | node nodeId value ih => exact ih
  | tupleGet tupleId value index ih =>
      rw [Knok.evalOutputs, Knok.evalOutputs, ← ih]
      cases Knok.evalOutputs S.toInterp noCalls env value with
      | none => rfl
      | some vs => exact (hone vs[index]?).trans (by rw [← List.getElem?_map]; rfl)
  | call op args ih =>
      have hargs := OpSemantics.Hom.evalArgs ih
      rcases op.eq_graph_or with ⟨name, rfl⟩ | hop
      · rw [evalOutputs_graph, evalOutputs_graph]
        cases Knok.evalArgs S.toInterp noCalls env args <;>
          cases Knok.evalArgs T.toInterp noCalls env' args <;> rfl
      · rw [evalOutputs_call _ _ _ hop, evalOutputs_call _ _ _ hop, ← hargs]
        cases Knok.evalArgs S.toInterp noCalls env args with
        | none => rfl
        | some vs => exact h.call op vs

theorem OpSemantics.Hom.evalTensor (h : S.Hom T f) (henv : ∀ name, (env name).map f = env' name)
    (e : Expr) :
    (evalTensor S.toInterp noCalls env e).map f = evalTensor T.toInterp noCalls env' e := by
  rw [Knok.evalTensor, Knok.evalTensor, ← h.evalOutputs henv e, map_bind_single]

theorem OpSemantics.Hom.bindNames (names : List String) :
    ∀ (vs : List V) {env : Env V} {env' : Env W}, (∀ name, (env name).map f = env' name) →
      ∀ name, (bindNames env names vs name).map f = bindNames env' names (vs.map f) name := by
  induction names with
  | nil => exact fun _ _ _ henv => henv
  | cons bound names ih =>
      intro vs env env' henv
      cases vs with
      | nil => exact henv
      | cons v vs =>
          refine ih vs fun name => ?_
          dsimp only
          by_cases hname : name = bound
          · rw [hname, Function.update_self, Function.update_self, Option.map_some]
          · rw [Function.update_of_ne hname, Function.update_of_ne hname, henv]

/-- The environments after lets. -/
theorem OpSemantics.Hom.evalLets (h : S.Hom T f) (bindings : List Binding) :
    ∀ {env final : Env V} {env' final' : Env W}, (∀ name, (env name).map f = env' name) →
      evalLets S.toInterp noCalls env bindings = some final →
      evalLets T.toInterp noCalls env' bindings = some final' →
      ∀ name, (final name).map f = final' name := by
  induction bindings with
  | nil =>
      intro env final env' final' henv hfinal hfinal'
      cases hfinal
      cases hfinal'
      exact henv
  | cons binding bindings ih =>
      intro env final env' final' henv hfinal hfinal'
      obtain ⟨mid, hlet, hrest⟩ := Option.bind_eq_some_iff.mp hfinal
      obtain ⟨mid', hlet', hrest'⟩ := Option.bind_eq_some_iff.mp hfinal'
      obtain ⟨vs, hvs, -, rfl⟩ := evalLet_eq_some_iff.mp hlet
      obtain ⟨ws, hws, -, rfl⟩ := evalLet_eq_some_iff.mp hlet'
      have hvalues := h.evalOutputs henv binding.2
      rw [hvs, hws, Option.map_some, Option.some.injEq] at hvalues
      subst hvalues
      exact ih (OpSemantics.Hom.bindNames binding.1 vs henv) hrest hrest'

end Hom

/-! ## Exact arithmetic is typed -/

section Typed

variable {R : Type u} [CommRing R]

/-- The results of a split are the slices of its operand. -/
theorem Arithmetic.split_eq_slices (A : Arithmetic R) {axis : ℕ} {sections : List ℕ}
    {x : Tensor R} (haxis : axis < x.ty.shape.length) :
    ∀ (todo : List ℕ) {done : List ℕ} {ws : List (Tensor R)}, sections = done ++ todo →
      splitSlices A.call axis x.ty.rank x (usizeSum done)
          (todo.map fun size => ⟨x.ty.elem, x.ty.shape.set axis size⟩) = some ws →
        ws = ((todo.map fun size => (⟨x.ty.elem, x.ty.shape.set axis size⟩ : TensorType)).zipIdx
          done.length).map fun p => ⟨p.1, A.callEntry (.split axis sections) [x] p.2⟩ := by
  intro todo
  induction todo with
  | nil =>
      intro done ws _ h
      exact (Option.some.inj h).symm
  | cons size todo ih =>
      intro done ws hsections h
      simp only [List.map_cons, splitSlices, Option.bind_eq_bind, Option.bind_eq_some_iff] at h
      obtain ⟨w, ⟨results, hresults, hsingle⟩, rest, hrest, hcons⟩ := h
      cases hcons
      obtain rfl := single_eq_some_iff.mp hsingle
      have hnext : usizeAdd (usizeSum done) ((x.ty.shape.set axis size).getD axis 0) =
          usizeSum (done ++ [size]) := by
        rw [getD_set_of_lt haxis, if_pos rfl, usizeSum, usizeSum, List.foldl_append]
        rfl
      have htake : sections.take done.length = done := by rw [hsections, List.take_left]
      have hws := @ih (done ++ [size]) rest (by rw [hsections]; simp) (by
        rw [← hnext]
        exact hrest)
      unfold Arithmetic.call at hresults
      split at hresults
      · next tys htys =>
        obtain rfl := inferCallResults_slice htys
        cases hresults
        rw [List.map_cons, List.zipIdx_cons, List.map_cons, hws, List.length_append]
        refine congrArg₂ List.cons (congrArg (Tensor.mk _) ?_) rfl
        funext i
        show x.entry _ = x.entry _
        rw [htake]
        rfl
      · cases hresults

/-- **Exact arithmetic**, as a typed semantics. -/
def Arithmetic.semantics (A : Arithmetic R) : TypedSemantics (Tensor R) where
  toOpSemantics := A.opSemantics
  typeOf := (·.ty)
  const_typed value elem := ⟨_, rfl, rfl⟩
  unary_typed := fun
    | .neg, x, hnumeric => ⟨⟨x.ty, fun i => -x.entry i⟩, if_pos hnumeric, rfl⟩
  binary_typed op l r ty h :=
    ⟨⟨ty, fun i => A.binaryEntry ty.elem op (l.at i) (r.at i)⟩, by
      show A.binary op l r = _
      rw [Arithmetic.binary, h], rfl⟩
  call_typed op xs tys h := by
    refine ⟨tys.zipIdx.map fun p => ⟨p.1, A.callEntry op xs p.2⟩, ?_, ?_⟩
    · show A.call op xs = _
      rw [Arithmetic.call, h]
    · rw [List.map_map]
      exact List.zipIdx_map_fst 0 tys
  split_slices axis sections x tys ws h hslices := by
    show A.call (.split axis sections) [x] = _
    have hrule := h
    simp only [inferCallResults, splitResultTypes, except_bind_eq_ok_iff, expectUnary_eq_ok_iff,
      except_pure_eq_ok_iff, failIf_eq_ok_iff, exists_const, expectAxis_eq_ok_iff] at hrule
    obtain ⟨input, hinput, haxis, -, rfl⟩ := hrule
    cases hinput
    rw [Arithmetic.call, List.map_singleton, h]
    exact congrArg some (@Arithmetic.split_eq_slices _ _ A _ _ x haxis sections [] _ rfl hslices).symm

end Typed

/-! ## Dual numbers -/

section Dual

variable {R : Type u} [CommRing R]

/-- The tensor without its tangent. -/
def Tensor.primal (x : Tensor (DualNumber R)) : Tensor R := ⟨x.ty, fun i => (x.entry i).fst⟩

/-- The tangent of a tensor. -/
def Tensor.tangent (x : Tensor (DualNumber R)) (i : List ℕ) : R := (x.entry i).snd

/-- A tensor that does not move. -/
def Tensor.still (x : Tensor R) : Tensor (DualNumber R) :=
  ⟨x.ty, fun i => TrivSqZeroExt.inl (x.entry i)⟩

/-- A tensor that moves along a tangent. -/
def Tensor.moving (x : Tensor R) (v : List ℕ → R) : Tensor (DualNumber R) :=
  ⟨x.ty, fun i => TrivSqZeroExt.inl (x.entry i) + TrivSqZeroExt.inr (v i)⟩

@[simp] theorem Tensor.primal_still (x : Tensor R) : x.still.primal = x := rfl

@[simp] theorem Tensor.primal_moving (x : Tensor R) (v : List ℕ → R) :
    (x.moving v).primal = x := by
  refine congrArg (Tensor.mk x.ty) (funext fun i => ?_)
  show (TrivSqZeroExt.inl (x.entry i) + TrivSqZeroExt.inr (v i) : DualNumber R).fst = x.entry i
  simp

@[simp] theorem Tensor.tangent_moving (x : Tensor R) (v : List ℕ → R) :
    (x.moving v).tangent = v := by
  funext i
  show (TrivSqZeroExt.inl (x.entry i) + TrivSqZeroExt.inr (v i) : DualNumber R).snd = v i
  simp

namespace Arithmetic

variable (A : Arithmetic R)

/-- Exact arithmetic over the dual numbers: what a ring does not say does not
move. -/
def dual : Arithmetic (DualNumber R) where
  literal value elem := TrivSqZeroExt.inl (A.literal value elem)
  div elem a b := TrivSqZeroExt.inl (A.div elem a.fst b.fst)
  other op xs result i := TrivSqZeroExt.inl (A.other op (xs.map Tensor.primal) result i)

/-- An operation on moving tensors; `detach` stops them. -/
def dualCall (op : CallOp) (xs : List (Tensor (DualNumber R))) :
    Option (List (Tensor (DualNumber R))) :=
  match op with
  | .detach => (A.dual.call .detach xs).map (List.map fun x => x.primal.still)
  | op => A.dual.call op xs

variable {A}

theorem dualCall_of_ne_detach {op : CallOp} (h : op ≠ .detach) : A.dualCall op = A.dual.call op := by
  funext xs
  cases op with
  | detach => exact absurd rfl h
  | _ => rfl

theorem fst_movedArray (op : CallOp) (xs : List (Tensor (DualNumber R))) (result : ℕ)
    (i : List ℕ) :
    (movedArray op (xs.map Tensor.ty) (xs.map Tensor.entry) result i).fst =
      movedArray op ((xs.map Tensor.primal).map Tensor.ty)
        ((xs.map Tensor.primal).map Tensor.entry) result i := by
  have htys : (xs.map Tensor.primal).map Tensor.ty = xs.map Tensor.ty := by
    rw [List.map_map]
    rfl
  rw [htys]
  cases hlaw : movementLaw op (xs.map Tensor.ty) result i with
  | none => rw [movedArray_of_padding hlaw, movedArray_of_padding hlaw, TrivSqZeroExt.fst_zero]
  | some p =>
      rw [movedArray_of_law hlaw, movedArray_of_law hlaw, List.getD_eq_getElem?_getD,
        List.getD_eq_getElem?_getD, List.getElem?_map, List.getElem?_map, List.getElem?_map]
      cases xs[p.1]? <;> rfl

theorem fst_pull (σ : IndexMap) (x : List ℕ → DualNumber R) (i : List ℕ) :
    (pull σ x i).fst = pull σ (fun j => (x j).fst) i := by
  unfold pull
  cases σ i <;> rfl

/-- **The primal part of a result** is the result on the primal parts. -/
theorem fst_callEntry (op : CallOp) (xs : List (Tensor (DualNumber R))) (result : ℕ)
    (i : List ℕ) :
    (A.dual.callEntry op xs result i).fst =
      A.callEntry op (xs.map Tensor.primal) result i := by
  have hget : ∀ k, (xs.map Tensor.primal).getD k ⟨default, fun _ => 0⟩ =
      (xs.getD k ⟨default, fun _ => 0⟩).primal :=
    fun k => List.getD_map xs ⟨default, fun _ => 0⟩ Tensor.primal
  cases hmoves : op.movesData with
  | true =>
      by_cases hsplit : ∃ axis sections, op = .split axis sections
      · obtain ⟨axis, sections, rfl⟩ := hsplit
        simp only [callEntry, hget]
        rfl
      · have hne := fun axis sections heq => hsplit ⟨axis, sections, heq⟩
        rw [callEntry_of_movesData _ hmoves hne, callEntry_of_movesData _ hmoves hne]
        exact fst_movedArray op xs result i
  | false =>
      cases op with
      | square =>
          simp only [callEntry, hget, TrivSqZeroExt.fst_mul]
          rfl
      | detach | fullLike | broadcast _ | squeeze _ | unsqueeze _ =>
          simp only [callEntry, hget]
          rfl
      | sum axis =>
          simp only [callEntry, hget]
          cases axis <;> exact TrivSqZeroExt.fst_sum _ _
      | matmul =>
          simp only [callEntry, hget, matmul, TrivSqZeroExt.fst_sum, TrivSqZeroExt.fst_mul]
          rfl
      | conv2d options =>
          simp only [callEntry, hget, conv2d, TrivSqZeroExt.fst_sum, TrivSqZeroExt.fst_mul]
          exact Finset.sum_congr rfl fun k _ => congrArg₂ (· * ·) (fst_pull _ _ _) rfl
      | _ => first | rfl | cases hmoves

theorem splitSlices_dualCall {axis rank : ℕ} {x : Tensor (DualNumber R)} {tys : List TensorType} :
    ∀ offset, splitSlices A.dualCall axis rank x offset tys =
      splitSlices A.dual.call axis rank x offset tys := by
  induction tys with
  | nil => exact fun _ => rfl
  | cons ty tys ih =>
      intro offset
      rw [splitSlices, splitSlices, ih]
      rfl

variable (A)

/-- Exact arithmetic on moving tensors, as a typed semantics. -/
def dualSemantics : TypedSemantics (Tensor (DualNumber R)) where
  toOpSemantics := { A.dual.opSemantics with call := A.dualCall }
  typeOf := (·.ty)
  const_typed := A.dual.semantics.const_typed
  unary_typed := A.dual.semantics.unary_typed
  binary_typed := A.dual.semantics.binary_typed
  call_typed op xs tys h := by
    obtain ⟨ws, hws, htys⟩ := A.dual.semantics.call_typed op xs tys h
    by_cases hop : op = .detach
    · subst hop
      refine ⟨ws.map fun x => x.primal.still, ?_, ?_⟩
      · show (A.dual.call .detach xs).map _ = _
        rw [show A.dual.call .detach xs = some ws from hws]
        rfl
      · rw [List.map_map]
        exact htys
    · refine ⟨ws, ?_, htys⟩
      show A.dualCall op xs = _
      rw [dualCall_of_ne_detach hop]
      exact hws
  split_slices axis sections x tys ws h hslices :=
    A.dual.semantics.split_slices axis sections x tys ws h
      ((splitSlices_dualCall (A := A) 0).symm.trans hslices)

/-- The primal parts of results are the results on the primal parts. -/
theorem map_primal_call (op : CallOp) (xs : List (Tensor (DualNumber R))) :
    (A.dual.call op xs).map (List.map Tensor.primal) = A.call op (xs.map Tensor.primal) := by
  have htys : (xs.map Tensor.primal).map Tensor.ty = xs.map Tensor.ty := by
    rw [List.map_map]
    rfl
  unfold Arithmetic.call
  rw [htys]
  cases inferCallResults op (xs.map Tensor.ty) with
  | error e => rfl
  | ok tys =>
      show some _ = some _
      rw [List.map_map]
      refine congrArg some (List.map_congr_left fun p _ => ?_)
      exact congrArg (Tensor.mk p.1) (funext fun i => fst_callEntry op xs p.2 i)

/-- **Forgetting tangents** commutes with every operation. -/
theorem primalHom : A.dualSemantics.toOpSemantics.Hom A.opSemantics Tensor.primal where
  const _ _ := rfl
  unary := by
    rintro ⟨⟩ x
    show (if x.ty.elem.isNumeric then some _ else none).map _ =
      if x.ty.elem.isNumeric then some _ else none
    split_ifs <;> rfl
  binary op l r := by
    show (A.dual.binary op l r).map _ = A.binary op l.primal r.primal
    have htypes : binaryResultType l.primal.ty r.primal.ty = binaryResultType l.ty r.ty := rfl
    rw [Arithmetic.binary, Arithmetic.binary, htypes]
    cases binaryResultType l.ty r.ty with
    | error e => rfl
    | ok ty => cases op <;> rfl
  call op xs := by
    by_cases hop : op = .detach
    · subst hop
      refine Eq.trans ?_ (A.map_primal_call .detach xs)
      show ((A.dual.call .detach xs).map _).map _ = _
      rw [Option.map_map]
      refine congrArg (fun f => (A.dual.call .detach xs).map f) ?_
      funext ws
      show (ws.map _).map _ = _
      rw [List.map_map]
      rfl
    · show (A.dualCall op xs).map _ = _
      rw [dualCall_of_ne_detach hop]
      exact A.map_primal_call op xs

end Arithmetic

end Dual

end Knok
