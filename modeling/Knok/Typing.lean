import Mathlib
import Knok.TypeCheck
import Knok.Inlining

/-!
# Typing as an interpretation

The type rules are an interpretation of the operations whose values are tensor
types: `evalOutputs typeInterp` infers types by plain recursion.  The checker of
`Knok.TypeCheck` computes the same types, with a table of the nodes it has met;
the table changes nothing as long as no let rebinds a name, because then a
recorded payload keeps its types when further names come into scope.

`WellTyped` is what an accepted graph satisfies: its lets and its body infer the
types they are annotated with.  In particular all its variables are bound, which
is what lowering asks of it.
-/

namespace Knok

open Control

/-! ## The interpretation -/

/-- The type rules. -/
def typeInterp : Interp TensorType where
  const _ elem := some ⟨elem, []⟩
  unary _ ty := do
    (expectNumericElement ty.elem "arithmetic operators").toOption
    return ty
  binary _ lhs rhs := (binaryResultType lhs rhs).toOption
  call op args tys := do
    (validateStaticCreationCall op args).toOption
    (inferCallResults op (← tys)).toOption

/-- The type rule of graph calls: a resolved signature and matching arguments. -/
def TypeChecker.calls (checker : TypeChecker) : Calls TensorType := fun name tys => do
  let signature ← (checker.resolve name tys.length).toOption
  if tys = signature.inputs then some signature.outputs else none

/-- Types of the names in scope, as an environment. -/
def TypeEnv.env (env : TypeEnv) : Env TensorType := env.lookup

theorem typeInterp_strict : typeInterp.Strict := by
  intro op args
  simp only [typeInterp]
  cases (validateStaticCreationCall op args).toOption <;> rfl

theorem TypeEnv.env_append_singleton (env : TypeEnv) (name : String) (ty : TensorType) :
    TypeEnv.env (env ++ [(name, ty)]) = Function.update env.env name (some ty) := by
  funext other
  simp only [TypeEnv.env, TypeEnv.lookup, List.reverse_append, List.reverse_singleton,
    List.singleton_append, List.lookup_cons]
  by_cases hname : other = name
  · subst hname
    simp
  · rw [Function.update_of_ne hname, beq_false_of_ne hname]
    rfl

theorem TypeEnv.env_pushBindings (env : TypeEnv) (names : List String)
    (tys : List TensorType) :
    TypeEnv.env (env.pushBindings names tys) = bindNames env.env names tys := by
  unfold TypeEnv.pushBindings bindNames
  induction names.zip tys generalizing env with
  | nil => simp
  | cons binding bindings ih =>
      rw [List.append_cons, ih, env_append_singleton, List.foldl_cons]

theorem TypeEnv.env_fromInputs (inputs : List Input) :
    TypeEnv.env (.fromInputs inputs) =
      bindNames (fun _ => none) (inputs.map Input.name) (inputs.map Input.ty) := by
  have h : TypeEnv.fromInputs inputs =
      TypeEnv.pushBindings [] (inputs.map Input.name) (inputs.map Input.ty) := by
    simp [TypeEnv.fromInputs, TypeEnv.pushBindings, List.zip_map']
  rw [h]
  exact env_pushBindings [] _ _

/-! ## The table changes nothing -/

/-- Every recorded node has the types it infers. -/
def NodeTypeCache.Sound (calls : Calls TensorType) (env : Env TensorType)
    (cache : NodeTypeCache) : Prop :=
  ∀ nodeId entry, cache nodeId = some entry →
    evalOutputs typeInterp calls env entry.value = some entry.tys

/-- The runs of a check that succeed infer what `inferred` says, and keep the
table sound. -/
def Infers {α : Type} (calls : Calls TensorType) (env : Env TensorType) (m : CheckM α)
    (inferred : Option α) : Prop :=
  ∀ cache a cache', cache.Sound calls env → m.run cache = .ok (a, cache') →
    inferred = some a ∧ cache'.Sound calls env

namespace Infers

variable {α β : Type} {calls : Calls TensorType} {env : Env TensorType}

theorem of_pure (a : α) : Infers calls env (pure a) (some a) := by
  intro cache b cache' hsound hrun
  cases stateT_pure_eq_ok_iff.mp hrun
  exact ⟨rfl, hsound⟩

theorem of_lift (x : Except Error α) : Infers calls env (liftM x) x.toOption := by
  intro cache a cache' hsound hrun
  obtain ⟨hx, rfl⟩ := stateT_lift_eq_ok_iff.mp hrun
  exact ⟨except_toOption_eq_some_iff.mpr hx, hsound⟩

theorem of_throw (e : Error) (inferred : Option α) :
    Infers calls env (throw e) inferred := by
  intro cache a cache' hsound hrun
  exact absurd hrun (by simp)

theorem bind {m : CheckM α} {inferred : Option α} {f : α → CheckM β} {g : α → Option β}
    (hm : Infers calls env m inferred) (hf : ∀ a, Infers calls env (f a) (g a)) :
    Infers calls env (m >>= f) (inferred >>= g) := by
  intro cache b cache' hsound hrun
  obtain ⟨a, mid, hrunm, hrunf⟩ := stateT_bind_eq_ok_iff.mp hrun
  obtain ⟨rfl, hsoundm⟩ := hm cache a mid hsound hrunm
  exact hf a mid b cache' hsoundm hrunf

end Infers

section Soundness

variable {checker : TypeChecker} {env : TypeEnv}

theorem infers_tensorType {e : Expr} {m : CheckM (List TensorType)}
    {inferred : Option (List TensorType)} (h : Infers checker.calls env.env m inferred) :
    Infers checker.calls env.env (tensorType e m) (inferred.bind single) := by
  refine h.bind fun tys => ?_
  have hsingle : single tys = (singleOutputType e tys).toOption := by
    match tys with
    | [] => rfl
    | [ty] => rfl
    | _ :: _ :: _ => rfl
  rw [hsingle]
  exact .of_lift _

theorem infers_node {nodeId : ℕ} {value : Expr} {m : CheckM (List TensorType)}
    (h : Infers checker.calls env.env m
      (evalOutputs typeInterp checker.calls env.env value)) :
    Infers checker.calls env.env (do
      match ← cachedOutputs nodeId value with
      | some tys => return tys
      | none => do
          let tys ← m
          insertNode nodeId value tys
          return tys) (evalOutputs typeInterp checker.calls env.env value) := by
  intro cache tys cache' hsound hrun
  obtain ⟨hit, mid, hlookup, hrun⟩ := stateT_bind_eq_ok_iff.mp hrun
  obtain ⟨rfl, ⟨rfl, hnone⟩ | ⟨tys', rfl, hsome⟩⟩ := cachedOutputs_eq_ok_iff.mp hlookup
  · obtain ⟨tys', last, hm, hrun⟩ := stateT_bind_eq_ok_iff.mp hrun
    obtain ⟨hvalue, hsound'⟩ := h mid tys' last hsound hm
    obtain ⟨u, final, hinsert, hrun⟩ := stateT_bind_eq_ok_iff.mp hrun
    obtain ⟨htys, hfinal⟩ := Prod.mk.inj (stateT_pure_eq_ok_iff.mp hrun)
    rw [← hfinal, ← htys]
    refine ⟨hvalue, ?_⟩
    obtain ⟨-, rfl⟩ | ⟨-, rfl⟩ := insertNode_eq_ok_iff.mp hinsert
    · intro otherId entry hentry
      by_cases hid : otherId = nodeId
      · subst hid
        rw [Function.update_self, Option.some.injEq] at hentry
        exact hentry ▸ hvalue
      · rw [Function.update_of_ne hid] at hentry
        exact hsound' otherId entry hentry
    · exact hsound'
  · obtain ⟨htys, hfinal⟩ := Prod.mk.inj (stateT_pure_eq_ok_iff.mp hrun)
    rw [← hfinal, ← htys]
    exact ⟨hsound nodeId _ hsome, hsound⟩

theorem infers_typeArgTys {args : List Expr}
    (h : ∀ arg ∈ args, Infers checker.calls env.env (typeValueOutputs checker env arg)
      (evalOutputs typeInterp checker.calls env.env arg)) :
    Infers checker.calls env.env (typeArgTys checker env args)
      (evalArgs typeInterp checker.calls env.env args) := by
  induction args with
  | nil => exact .of_pure _
  | cons arg args ih =>
      rw [typeArgTys, evalArgs]
      refine (infers_tensorType (h arg (List.mem_cons_self ..))).bind fun ty => ?_
      exact (ih fun a ha => h a (List.mem_cons_of_mem _ ha)).bind fun tys => .of_pure _

/-- The loop over the arguments of a graph call finds the expected types. -/
theorem infers_typeGraphArgs {name : String} {args : List Expr}
    (h : ∀ arg ∈ args, Infers checker.calls env.env (typeValueOutputs checker env arg)
      (evalOutputs typeInterp checker.calls env.env arg)) :
    ∀ (index : ℕ) (inputs : List TensorType), args.length = inputs.length →
      ∀ cache u cache', cache.Sound checker.calls env.env →
        (typeGraphArgs checker env name index args inputs).run cache = .ok (u, cache') →
        evalArgs typeInterp checker.calls env.env args = some inputs ∧
          cache'.Sound checker.calls env.env := by
  induction args with
  | nil =>
      intro index inputs hlen cache u cache' hsound hrun
      obtain rfl := List.length_eq_zero_iff.mp hlen.symm
      cases stateT_pure_eq_ok_iff.mp hrun
      exact ⟨rfl, hsound⟩
  | cons arg args ih =>
      intro index inputs hlen cache u cache' hsound hrun
      obtain ⟨expected, inputs, rfl⟩ := List.exists_cons_of_length_eq_add_one hlen.symm
      rw [typeGraphArgs] at hrun
      obtain ⟨actual, mid, harg, htail⟩ := stateT_bind_eq_ok_iff.mp hrun
      obtain ⟨hactual, hmid⟩ := infers_tensorType (h arg (List.mem_cons_self ..))
        cache actual mid hsound harg
      obtain ⟨checked, mid', hlift, hloop⟩ := stateT_bind_eq_ok_iff.mp htail
      obtain ⟨hcheck, hmid'⟩ := stateT_lift_eq_ok_iff.mp hlift
      obtain rfl : actual = expected := by simpa using hcheck
      subst hmid'
      obtain ⟨hargs, hsound'⟩ := ih (fun a ha => h a (List.mem_cons_of_mem _ ha)) _ inputs
        (by simpa using hlen) _ u cache' hmid hloop
      exact ⟨by rw [evalArgs, hactual, hargs]; rfl, hsound'⟩

/-- **A checked expression has the types it infers.** -/
theorem infers_typeValueOutputs (e : Expr) :
    Infers checker.calls env.env (typeValueOutputs checker env e)
      (evalOutputs typeInterp checker.calls env.env e) := by
  induction e with
  | var name =>
      rw [typeValueOutputs, evalOutputs, TypeEnv.env]
      cases env.lookup name with
      | none => exact .of_throw _ _
      | some ty => exact .of_pure _
  | const value elem => exact .of_pure _
  | unary op value ih =>
      rw [typeValueOutputs, evalOutputs]
      intro cache tys cache' hsound hrun
      have h := (infers_tensorType (e := value) ih).bind fun ty =>
        (Infers.of_lift (expectNumericElement ty.elem "arithmetic operators")).bind fun _ =>
          Infers.of_pure [ty]
      obtain ⟨hinfer, hsound'⟩ := h cache tys cache' hsound hrun
      refine ⟨?_, hsound'⟩
      rw [← hinfer]
      simp [typeInterp, Option.bind_assoc]
  | binary op lhs rhs ihl ihr =>
      rw [typeValueOutputs, evalOutputs]
      exact (infers_tensorType ihl).bind fun l => (infers_tensorType ihr).bind fun r =>
        (Infers.of_lift (binaryResultType l r)).bind fun ty => .of_pure _
  | node nodeId value ih =>
      rw [typeValueOutputs]
      exact infers_node ih
  | tupleGet tupleId value index ih =>
      rw [typeValueOutputs, evalOutputs]
      refine ih.bind fun outputs => ?_
      cases outputs[index]? with
      | none => exact .of_throw _ _
      | some ty => exact .of_pure _
  | call op args ih =>
      rcases op.eq_graph_or with ⟨name, rfl⟩ | hop
      · rw [typeValueOutputs, evalOutputs_graph]
        intro cache tys cache' hsound hrun
        obtain ⟨signature, mid, hlift, hrest⟩ := stateT_bind_eq_ok_iff.mp hrun
        obtain ⟨hresolve, rfl⟩ := stateT_lift_eq_ok_iff.mp hlift
        have hlen := (resolve_eq_ok_iff.mp hresolve).2.2
        obtain ⟨u, mid', hloop, hrest⟩ := stateT_bind_eq_ok_iff.mp hrest
        obtain ⟨hargs, hsound'⟩ := infers_typeGraphArgs ih 0 signature.inputs hlen _ u mid'
          hsound hloop
        cases stateT_pure_eq_ok_iff.mp hrest
        refine ⟨?_, hsound'⟩
        have hresolve' := hresolve
        rw [hlen] at hresolve'
        simp [hargs, TypeChecker.calls, hresolve', Except.toOption]
      · rw [typeValueOutputs_call hop, evalOutputs_call _ _ _ hop]
        intro cache tys cache' hsound hrun
        have h := (Infers.of_lift (validateStaticCreationCall op args)).bind fun _ =>
          (infers_typeArgTys ih).bind fun argTys =>
            Infers.of_lift (inferCallResults op argTys)
        exact h cache tys cache' hsound hrun

end Soundness

/-! ## Well-typed graphs -/

/-- Lets infer the types they are annotated with, and the environment they end
in satisfies `body`. -/
def LetsTyped (calls : Calls TensorType) :
    Env TensorType → List TypedLet → (Env TensorType → Prop) → Prop
  | env, [], body => body env
  | env, binding :: lets, body =>
      evalOutputs typeInterp calls env binding.value.kind = some binding.value.tys ∧
        binding.names.length = binding.value.tys.length ∧
          LetsTyped calls (bindNames env binding.names binding.value.tys) lets body

/-- A graph infers the types it is annotated with. -/
structure WellTyped (calls : Calls TensorType) (graph : TypedGraph) : Prop where
  typed : LetsTyped calls (inputEnv graph (graph.inputs.map Input.ty)) graph.lets fun env =>
    ∀ e ∈ graph.body, evalTensor typeInterp calls env e.kind = some e.ty
  outputs : graph.body.map TypedExpr.ty = graph.outputs

theorem Infers.sound {α : Type} {calls : Calls TensorType} {env : Env TensorType}
    {m : CheckM α} {inferred : Option α} (h : Infers calls env m inferred)
    {cache cache' : NodeTypeCache} {a : α} (hsound : cache.Sound calls env)
    (hrun : m.run cache = .ok (a, cache')) : inferred = some a ∧ cache'.Sound calls env :=
  h cache a cache' hsound hrun

section Graphs

variable {checker : TypeChecker}

/-- Recorded types survive new bindings. -/
theorem NodeTypeCache.Sound.mono {calls : Calls TensorType} {env env' : Env TensorType}
    {cache : NodeTypeCache} (h : cache.Sound calls env) (hext : Env.Extends env env') :
    cache.Sound calls env' :=
  fun nodeId entry hentry => evalOutputs_mono typeInterp_strict hext (h nodeId entry hentry)

/-- The loop over the lets, when none rebinds a name. -/
theorem typeLets_sound {lets : List Let} :
    ∀ {names : List String} {env env' : TypeEnv} {cache cache' : NodeTypeCache}
      {typed : List TypedLet}, Env.Binds env.env names →
      (lets.flatMap Let.names).Nodup → (∀ name ∈ lets.flatMap Let.names, name ∉ names) →
      cache.Sound checker.calls env.env →
      (typeLets checker env lets).run cache = .ok ((env', typed), cache') →
      (∀ body : Env TensorType → Prop, body env'.env →
          LetsTyped checker.calls env.env typed body) ∧
        cache'.Sound checker.calls env'.env := by
  induction lets with
  | nil =>
      intro names env env' cache cache' typed _ _ _ hsound hrun
      cases stateT_pure_eq_ok_iff.mp hrun
      exact ⟨fun body hbody => hbody, hsound⟩
  | cons binding lets ih =>
      intro names env env' cache cache' typed hbinds hnodup hnew hsound hrun
      rw [List.flatMap_cons] at hnodup hnew
      obtain ⟨-, hnodup', hdisjoint⟩ := List.nodup_append.mp hnodup
      rw [typeLets] at hrun
      obtain ⟨value, mid, hvalue, hafter⟩ := stateT_bind_eq_ok_iff.mp hrun
      obtain ⟨tys, mid', houtputs, hpure⟩ := stateT_bind_eq_ok_iff.mp hvalue
      obtain ⟨hinfer, hmid⟩ := (infers_typeValueOutputs binding.value).sound hsound houtputs
      cases stateT_pure_eq_ok_iff.mp hpure
      obtain ⟨checked, mid'', hlift, hrest⟩ := stateT_bind_eq_ok_iff.mp hafter
      obtain ⟨hlen, hmid''⟩ := stateT_lift_eq_ok_iff.mp hlift
      have hlen : binding.names.length = tys.length := by simpa using hlen
      obtain ⟨⟨last, rest⟩, final, hloop, hdone⟩ := stateT_bind_eq_ok_iff.mp hrest
      cases stateT_pure_eq_ok_iff.mp hdone
      have hunbound : ∀ name ∈ binding.names, env.env name = none := fun name hname =>
        hbinds.eq_none (hnew name (List.mem_append_left _ hname))
      have hext := extends_bindNames hunbound tys
      have hbinds' := hbinds.bindNames hlen
      rw [← TypeEnv.env_pushBindings] at hext hbinds'
      have hnew' : ∀ name ∈ lets.flatMap Let.names, name ∉ names ++ binding.names := by
        intro name hname hmem
        rcases List.mem_append.mp hmem with hmem | hmem
        · exact hnew name (List.mem_append_right _ hname) hmem
        · exact hdisjoint name hmem name hname rfl
      subst hmid''
      obtain ⟨hlets, hsound'⟩ := ih hbinds' hnodup' hnew' (hmid.mono hext) hloop
      refine ⟨fun body hbody => ⟨hinfer, hlen, ?_⟩, hsound'⟩
      have htail := hlets body hbody
      rwa [TypeEnv.env_pushBindings] at htail

/-- The checker keeps the names and values of lets. -/
theorem typeLets_bindings {lets : List Let} :
    ∀ {env env' : TypeEnv} {cache cache' : NodeTypeCache} {typed : List TypedLet},
      (typeLets checker env lets).run cache = .ok ((env', typed), cache') →
      typed.map TypedLet.binding = lets.map Let.binding := by
  induction lets with
  | nil =>
      intro env env' cache cache' typed hrun
      cases stateT_pure_eq_ok_iff.mp hrun
      rfl
  | cons binding lets ih =>
      intro env env' cache cache' typed hrun
      rw [typeLets] at hrun
      obtain ⟨value, mid, hvalue, hafter⟩ := stateT_bind_eq_ok_iff.mp hrun
      obtain ⟨tys, mid', houtputs, hpure⟩ := stateT_bind_eq_ok_iff.mp hvalue
      cases stateT_pure_eq_ok_iff.mp hpure
      obtain ⟨checked, mid'', hlift, hrest⟩ := stateT_bind_eq_ok_iff.mp hafter
      obtain ⟨⟨last, rest⟩, final, hloop, hdone⟩ := stateT_bind_eq_ok_iff.mp hrest
      cases stateT_pure_eq_ok_iff.mp hdone
      rw [List.map_cons, List.map_cons, ih hloop]
      rfl

theorem flatMap_names_eq {lets : List Let} {typed : List TypedLet}
    (h : typed.map TypedLet.binding = lets.map Let.binding) :
    typed.flatMap TypedLet.names = lets.flatMap Let.names := by
  have hfst : (typed.map TypedLet.binding).flatMap Prod.fst =
      (lets.map Let.binding).flatMap Prod.fst := by rw [h]
  simpa [List.flatMap_map, TypedLet.binding, Let.binding] using hfst

/-- The loop over the body. -/
theorem typeBody_sound {env : TypeEnv} {es : List Expr} :
    ∀ {cache cache' : NodeTypeCache} {typed : List TypedExpr},
      cache.Sound checker.calls env.env →
      (typeBody checker env es).run cache = .ok (typed, cache') →
      ∀ e ∈ typed, evalTensor typeInterp checker.calls env.env e.kind = some e.ty := by
  induction es with
  | nil =>
      intro cache cache' typed _ hrun
      cases stateT_pure_eq_ok_iff.mp hrun
      simp
  | cons e es ih =>
      intro cache cache' typed hsound hrun
      rw [typeBody] at hrun
      obtain ⟨first, mid, hfirst, hafter⟩ := stateT_bind_eq_ok_iff.mp hrun
      obtain ⟨ty, mid', htensor, hpure⟩ := stateT_bind_eq_ok_iff.mp hfirst
      obtain ⟨hinfer, hmid⟩ :=
        (infers_tensorType (e := e) (infers_typeValueOutputs e)).sound hsound htensor
      cases stateT_pure_eq_ok_iff.mp hpure
      obtain ⟨rest, final, hloop, hdone⟩ := stateT_bind_eq_ok_iff.mp hafter
      cases stateT_pure_eq_ok_iff.mp hdone
      intro typed htyped
      rcases List.mem_cons.mp htyped with rfl | htyped
      · exact hinfer
      · exact ih hmid hloop typed htyped

theorem typeBody_kinds {env : TypeEnv} {es : List Expr} :
    ∀ {cache cache' : NodeTypeCache} {typed : List TypedExpr},
      (typeBody checker env es).run cache = .ok (typed, cache') →
      typed.map TypedExpr.kind = es := by
  induction es with
  | nil =>
      intro cache cache' typed hrun
      cases stateT_pure_eq_ok_iff.mp hrun
      rfl
  | cons e es ih =>
      intro cache cache' typed hrun
      rw [typeBody] at hrun
      obtain ⟨first, mid, hfirst, hafter⟩ := stateT_bind_eq_ok_iff.mp hrun
      obtain ⟨ty, mid', htensor, hpure⟩ := stateT_bind_eq_ok_iff.mp hfirst
      cases stateT_pure_eq_ok_iff.mp hpure
      obtain ⟨rest, final, hloop, hdone⟩ := stateT_bind_eq_ok_iff.mp hafter
      cases stateT_pure_eq_ok_iff.mp hdone
      rw [List.map_cons, ih hloop]

end Graphs

/-- The graph comes out of the type checker. -/
def TypedGraph.Accepted (graph : TypedGraph) : Prop :=
  ∃ source graphSignatures, typeCheck source graphSignatures = .ok graph

/-- What a successful run of the checker returns. -/
theorem typeCheckM_eq_ok {source : Graph} {graphSignatures : List (String × GraphSignature)}
    {graph : TypedGraph} {cache : NodeTypeCache}
    (h : (typeCheckM source graphSignatures).run (fun _ => none) = .ok (graph, cache)) :
    ∃ env mid, (typeLets ⟨graphSignatures, source.name⟩ (.fromInputs source.inputs)
        source.lets).run (fun _ => none) = .ok ((env, graph.lets), mid) ∧
      (typeBody ⟨graphSignatures, source.name⟩ env source.body).run mid =
        .ok (graph.body, cache) ∧
      graph.body.map TypedExpr.ty = source.outputs ∧ graph.name = source.name ∧
        graph.inputs = source.inputs ∧ graph.outputs = source.outputs := by
  obtain ⟨⟨env, lets⟩, mid, hlets, hafter⟩ := stateT_bind_eq_ok_iff.mp h
  obtain ⟨body, mid', hbody, hafter'⟩ := stateT_bind_eq_ok_iff.mp hafter
  obtain ⟨checked, mid'', hlift, hdone⟩ := stateT_bind_eq_ok_iff.mp hafter'
  obtain ⟨hreturn, hmid⟩ := stateT_lift_eq_ok_iff.mp hlift
  obtain ⟨hgraph, hcache⟩ := Prod.mk.inj (stateT_pure_eq_ok_iff.mp hdone)
  subst hgraph
  rw [← hcache, show mid'' = mid' from hmid]
  have htys : body.map TypedExpr.ty = source.outputs := by simpa using hreturn
  exact ⟨env, mid, hlets, hbody, htys, rfl, rfl, rfl⟩

/-- The checker adds types and changes nothing else. -/
structure SameGraph (source : Graph) (graph : TypedGraph) : Prop where
  inputs : graph.inputs = source.inputs
  outputs : graph.outputs = source.outputs
  lets : graph.lets.map TypedLet.binding = source.lets.map Let.binding
  body : graph.body.map TypedExpr.kind = source.body
  tys : graph.body.map TypedExpr.ty = source.outputs

theorem sameGraph_of_typeCheck {source : Graph}
    {graphSignatures : List (String × GraphSignature)} {graph : TypedGraph}
    (h : typeCheck source graphSignatures = .ok graph) : SameGraph source graph := by
  obtain ⟨cache, hrun⟩ := typeCheck_eq_ok_iff.mp h
  obtain ⟨env, mid, hlets, hbody, htys, -, hinputs, houtputs⟩ := typeCheckM_eq_ok hrun
  exact ⟨hinputs, houtputs, typeLets_bindings hlets, typeBody_kinds hbody, htys⟩

/-- **An accepted graph without rebinding is well typed.** -/
theorem wellTyped_of_typeCheck {source : Graph}
    {graphSignatures : List (String × GraphSignature)} {graph : TypedGraph}
    (h : typeCheck source graphSignatures = .ok graph) (hnames : graph.NoRebinding) :
    WellTyped (TypeChecker.calls ⟨graphSignatures, source.name⟩) graph := by
  obtain ⟨cache, hrun⟩ := typeCheck_eq_ok_iff.mp h
  obtain ⟨env, mid, hlets, hbody, htys, -, hinputs, houtputs⟩ := typeCheckM_eq_ok hrun
  have hbinds : Env.Binds (TypeEnv.env (.fromInputs source.inputs))
      (source.inputs.map Input.name) := by
    have hempty : Env.Binds (fun _ => none : Env TensorType) [] := by
      intro name
      simp
    rw [TypeEnv.env_fromInputs]
    exact hempty.bindNames (by simp)
  have hnames' : (source.lets.flatMap Let.names).Nodup ∧
      ∀ name ∈ source.lets.flatMap Let.names, name ∉ source.inputs.map Input.name := by
    have hflat : graph.lets.flatMap TypedLet.names = source.lets.flatMap Let.names :=
      flatMap_names_eq (typeLets_bindings hlets)
    rw [← hflat, ← hinputs]
    exact ⟨hnames.lets, hnames.inputs⟩
  obtain ⟨htyped, hsound⟩ := typeLets_sound hbinds hnames'.1 hnames'.2
    (fun _ _ hentry => by cases hentry) hlets
  refine ⟨?_, htys.trans houtputs.symm⟩
  rw [inputEnv, hinputs, ← TypeEnv.env_fromInputs]
  exact htyped _ (typeBody_sound hsound hbody)

end Knok
