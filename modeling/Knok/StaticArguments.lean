import Mathlib
import Knok.Typing
import Knok.Sharing

/-!
# Static arguments

The arguments of a static creation call are literals: the checker, the lowering
and the differentiation all read them with `Expr.staticScalar`.  A static scalar
is a constant under negations (`staticScalar_shape`); the elements that a call
embeds depend on its arguments only through their static scalars
(`staticLiterals_congr`); and every static creation call of an accepted graph,
at whatever depth, passes the check of its arguments (`literalCalls_of_accepted`).
-/

namespace Knok

open Control

/-! ## What a call embeds -/

/-- The elements that lowering embeds for a static creation call. -/
def staticLiterals (op : CallOp) (args : List Expr) : Except Error (List Literal) :=
  match op with
  | .arange target => staticArangeLiterals target args
  | .linspace target => staticLinspaceLiterals target args
  | .eye target => staticEyeLiterals target
  | .staticRandomUniform target seed => staticRandomUniformLiterals target seed args
  | .staticRandomInt target seed => staticRandomIntLiterals target seed args
  | _ => .ok []

/-- A negation, of whatever operand. -/
def Expr.isNegation : Expr → Bool
  | .unary .neg _ => true
  | _ => false

/-- A static scalar is a constant or a negation. -/
theorem staticScalar_shape {e : Expr} (h : e.staticScalar ≠ none) :
    (∃ value elem, e = .const value elem) ∨ ∃ value, e = .unary .neg value := by
  match e with
  | .const value elem => exact .inl ⟨value, elem, rfl⟩
  | .unary .neg value => exact .inr ⟨value, rfl⟩
  | .var _ | .binary .. | .node .. | .tupleGet .. | .call .. => exact absurd rfl h

/-- The static scalars of a list of arguments. -/
def staticScalars (args : List Expr) : List (Option StaticScalar) :=
  args.map Expr.staticScalar

section Congruence

variable {args args' : List Expr} (h : staticScalars args' = staticScalars args)

include h

theorem length_eq_of_staticScalars : args'.length = args.length := by
  simpa [staticScalars] using congrArg List.length h

theorem numericParams_congr (opName : String) :
    args'.mapM (numericParam opName) = args.mapM (numericParam opName) := by
  -- a parameter is a function of the static scalar of its argument
  have hparam : (numericParam opName).FactorsThrough Expr.staticScalar := by
    intro arg arg' hscalar
    unfold numericParam
    rw [hscalar]
  have : Nonempty (Except Error NumericParam) := ⟨numericParam opName (.var opName)⟩
  obtain ⟨f, hf⟩ := (Function.factorsThrough_iff _).mp hparam
  have hmap : ∀ as : List Expr, as.mapM (numericParam opName) = (staticScalars as).mapM f := by
    intro as
    rw [staticScalars, List.mapM_map]
    rw [hf]
  rw [hmap, hmap, h]

theorem parseNumericParams_congr (opName : String) (low high : ℕ) :
    parseNumericParams opName args' low high = parseNumericParams opName args low high := by
  unfold parseNumericParams
  rw [length_eq_of_staticScalars h, numericParams_congr h]

theorem parsePair_congr (opName : String) : parsePair opName args' = parsePair opName args := by
  unfold parsePair
  rw [parseNumericParams_congr h, length_eq_of_staticScalars h]

theorem arangeParams_congr : arangeParams args' = arangeParams args := by
  unfold arangeParams
  rw [parseNumericParams_congr h]

/-- **What a call embeds depends on its arguments only through their static
scalars.** -/
theorem staticLiterals_congr (op : CallOp) : staticLiterals op args' = staticLiterals op args := by
  cases op with
  | arange target =>
      simp only [staticLiterals, staticArangeLiterals, arangeParams_congr h]
  | linspace target =>
      simp only [staticLiterals, staticLinspaceLiterals, parsePair_congr h]
  | staticRandomUniform target seed =>
      simp only [staticLiterals, staticRandomUniformLiterals, parseFloatBounds, parsePair_congr h]
  | staticRandomInt target seed =>
      simp only [staticLiterals, staticRandomIntLiterals, parseIntegerBounds, parsePair_congr h]
  | _ => rfl

/-- So does the check of its arguments. -/
theorem validateStaticCreationCall_congr (op : CallOp) :
    validateStaticCreationCall op args' = validateStaticCreationCall op args := by
  have hliterals := staticLiterals_congr h op
  cases op with
  | arange | linspace | staticRandomUniform | staticRandomInt =>
      simp only [staticLiterals] at hliterals
      simp only [validateStaticCreationCall, hliterals]
  | eye target =>
      have hlen := length_eq_of_staticScalars h
      have hempty : args'.isEmpty = args.isEmpty := by
        rw [Bool.eq_iff_iff, List.isEmpty_iff_length_eq_zero, List.isEmpty_iff_length_eq_zero, hlen]
      simp only [validateStaticCreationCall, hlen, hempty]
  | _ => rfl

end Congruence

/-! ## What the check of a call says -/

theorem staticScalar_of_numericParam {opName : String} {arg : Expr} {param : NumericParam}
    (h : numericParam opName arg = .ok param) : arg.staticScalar ≠ none := by
  intro hnone
  unfold numericParam at h
  rw [hnone] at h
  cases h

theorem staticScalar_of_parseNumericParams {opName : String} {args : List Expr} {low high : ℕ}
    {params : List NumericParam} (h : parseNumericParams opName args low high = .ok params) :
    ∀ arg ∈ args, arg.staticScalar ≠ none := by
  intro arg harg
  obtain ⟨-, -, hmap⟩ := except_bind_eq_ok_iff.mp h
  obtain ⟨param, hparam⟩ := exists_eq_ok_of_mapM hmap harg
  exact staticScalar_of_numericParam hparam

theorem staticScalar_of_parsePair {opName : String} {args : List Expr}
    {pair : NumericParam × NumericParam} (h : parsePair opName args = .ok pair) :
    ∀ arg ∈ args, arg.staticScalar ≠ none := by
  obtain ⟨params, hparams, -⟩ := except_bind_eq_ok_iff.mp h
  exact staticScalar_of_parseNumericParams hparams

/-- **The arguments of a static creation call that passes its check are static
scalars.** -/
theorem staticScalar_of_validate {op : CallOp} (hop : op.isStaticCreation = true)
    {args : List Expr} (h : validateStaticCreationCall op args = .ok ()) :
    ∀ arg ∈ args, arg.staticScalar ≠ none := by
  cases op with
  | arange target =>
      obtain ⟨literals, hliterals, -⟩ := except_bind_eq_ok_iff.mp h
      obtain ⟨-, -, hafter⟩ := except_bind_eq_ok_iff.mp hliterals
      obtain ⟨params, hparams, -⟩ := except_bind_eq_ok_iff.mp hafter
      obtain ⟨list, hlist, -⟩ := except_bind_eq_ok_iff.mp hparams
      exact staticScalar_of_parseNumericParams hlist
  | linspace target =>
      obtain ⟨literals, hliterals, -⟩ := except_bind_eq_ok_iff.mp h
      obtain ⟨-, -, hafter⟩ := except_bind_eq_ok_iff.mp hliterals
      obtain ⟨pair, hpair, -⟩ := except_bind_eq_ok_iff.mp hafter
      exact staticScalar_of_parsePair hpair
  | eye target =>
      obtain ⟨_, hempty, -⟩ := except_bind_eq_ok_iff.mp h
      have hargs : args = [] := by simpa using failIf_eq_ok_iff.mp hempty
      simp [hargs]
  | staticRandomUniform target seed =>
      obtain ⟨literals, hliterals, -⟩ := except_bind_eq_ok_iff.mp h
      obtain ⟨-, -, hafter⟩ := except_bind_eq_ok_iff.mp hliterals
      obtain ⟨bounds, hbounds, -⟩ := except_bind_eq_ok_iff.mp hafter
      obtain ⟨pair, hpair, -⟩ := except_bind_eq_ok_iff.mp hbounds
      exact staticScalar_of_parsePair hpair
  | staticRandomInt target seed =>
      obtain ⟨literals, hliterals, -⟩ := except_bind_eq_ok_iff.mp h
      obtain ⟨-, -, hafter⟩ := except_bind_eq_ok_iff.mp hliterals
      obtain ⟨bounds, hbounds, -⟩ := except_bind_eq_ok_iff.mp hafter
      obtain ⟨pair, hpair, -⟩ := except_bind_eq_ok_iff.mp hbounds
      exact staticScalar_of_parsePair hpair
  | _ => cases hop

/-! ## What the checker says about the calls inside -/

/-- Every operation that occurs in an expression has passed the check of its
arguments. -/
def LiteralCalls (e : Expr) : Prop :=
  ∀ op args, Expr.call op args ∈ e.subexprs → validateStaticCreationCall op args = .ok ()

theorem literalCalls_call {op : CallOp} {args : List Expr}
    (hvalid : validateStaticCreationCall op args = .ok ())
    (hargs : ∀ arg ∈ args, LiteralCalls arg) : LiteralCalls (.call op args) := by
  intro op' args' hcall
  rcases List.mem_cons.mp hcall with heq | hcall
  · cases heq
    exact hvalid
  · obtain ⟨arg, harg, hcall⟩ := Expr.mem_subexprsList.mp hcall
    exact hargs arg harg op' args' hcall

/-- The payloads in a table have literal calls only. -/
def NodeTypeCache.LiteralCalls (cache : NodeTypeCache) : Prop :=
  ∀ nodeId entry, cache nodeId = some entry → Knok.LiteralCalls entry.value

/-- A successful run has found the calls in the expressions `es` to be literal,
and keeps such a table. -/
def FindsLiteral {α : Type} (m : CheckM α) (es : List Expr) : Prop :=
  ∀ cache a cache', cache.LiteralCalls → m.run cache = .ok (a, cache') →
    cache'.LiteralCalls ∧ ∀ e ∈ es, LiteralCalls e

namespace FindsLiteral

variable {α β : Type}

theorem of_pure (a : α) : FindsLiteral (pure a : CheckM α) [] := by
  intro cache b cache' hcache hrun
  cases stateT_pure_eq_ok_iff.mp hrun
  exact ⟨hcache, by simp⟩

theorem of_lift (x : Except Error α) : FindsLiteral (liftM x : CheckM α) [] := by
  intro cache a cache' hcache hrun
  obtain ⟨-, rfl⟩ := stateT_lift_eq_ok_iff.mp hrun
  exact ⟨hcache, by simp⟩

theorem of_throw (e : Error) (es : List Expr) : FindsLiteral (throw e : CheckM α) es := by
  intro cache a cache' hcache hrun
  exact absurd hrun (by simp)

theorem bind {m : CheckM α} {f : α → CheckM β} {es es' : List Expr}
    (hm : FindsLiteral m es) (hf : ∀ a, FindsLiteral (f a) es') :
    FindsLiteral (m >>= f) (es ++ es') := by
  intro cache b cache' hcache hrun
  obtain ⟨a, mid, hrunm, hrunf⟩ := stateT_bind_eq_ok_iff.mp hrun
  obtain ⟨hmid, hes⟩ := hm cache a mid hcache hrunm
  obtain ⟨hcache', hes'⟩ := hf a mid b cache' hmid hrunf
  exact ⟨hcache', fun e he => (List.mem_append.mp he).elim (hes e) (hes' e)⟩

theorem weaken {m : CheckM α} {es es' : List Expr} (h : FindsLiteral m es)
    (hparts : (∀ e ∈ es, LiteralCalls e) → ∀ e ∈ es', LiteralCalls e) :
    FindsLiteral m es' := by
  intro cache a cache' hcache hrun
  obtain ⟨hcache', hes⟩ := h cache a cache' hcache hrun
  exact ⟨hcache', hparts hes⟩

theorem tensorType (e : Expr) {m : CheckM (List TensorType)} {es : List Expr}
    (h : FindsLiteral m es) : FindsLiteral (tensorType e m) es :=
  (h.bind fun tys => of_lift (singleOutputType e tys)).weaken (by simp)

end FindsLiteral

/-- A table hit is a payload that has been checked; a miss is checked now. -/
theorem findsLiteral_node {nodeId : ℕ} {value : Expr} {m : CheckM (List TensorType)}
    (h : FindsLiteral m [value]) :
    FindsLiteral (do
      match ← cachedOutputs nodeId value with
      | some tys => return tys
      | none => do
          let tys ← m
          insertNode nodeId value tys
          return tys) [value] := by
  intro cache tys cache' hcache hrun
  obtain ⟨hit, mid, hlookup, hrun⟩ := stateT_bind_eq_ok_iff.mp hrun
  obtain ⟨rfl, ⟨rfl, -⟩ | ⟨tys', rfl, hsome⟩⟩ := cachedOutputs_eq_ok_iff.mp hlookup
  · obtain ⟨tys', last, hm, hrun⟩ := stateT_bind_eq_ok_iff.mp hrun
    obtain ⟨hlast, hes⟩ := h mid tys' last hcache hm
    have hvalue := hes value (List.mem_singleton_self _)
    obtain ⟨u, final, hinsert, hrun⟩ := stateT_bind_eq_ok_iff.mp hrun
    obtain ⟨-, hfinal⟩ := Prod.mk.inj (stateT_pure_eq_ok_iff.mp hrun)
    rw [← hfinal]
    refine ⟨?_, hes⟩
    obtain ⟨-, rfl⟩ | ⟨-, rfl⟩ := insertNode_eq_ok_iff.mp hinsert
    · intro otherId entry hentry
      by_cases hid : otherId = nodeId
      · subst hid
        rw [Function.update_self, Option.some.injEq] at hentry
        exact hentry ▸ hvalue
      · rw [Function.update_of_ne hid] at hentry
        exact hlast otherId entry hentry
    · exact hlast
  · obtain ⟨-, hfinal⟩ := Prod.mk.inj (stateT_pure_eq_ok_iff.mp hrun)
    rw [← hfinal]
    refine ⟨hcache, fun e he => ?_⟩
    rw [List.mem_singleton.mp he]
    exact hcache nodeId _ hsome

section Checker

variable {checker : TypeChecker} {env : TypeEnv}

theorem findsLiteral_typeArgTys {args : List Expr}
    (h : ∀ arg ∈ args, FindsLiteral (typeValueOutputs checker env arg) [arg]) :
    FindsLiteral (typeArgTys checker env args) args := by
  induction args with
  | nil => exact .of_pure _
  | cons arg args ih =>
      have htail := ih fun a ha => h a (List.mem_cons_of_mem _ ha)
      have hhead := (h arg (List.mem_cons_self ..)).tensorType arg
      rw [typeArgTys]
      refine (hhead.bind fun ty => htail.bind fun tys => .of_pure _).weaken ?_
      simp

theorem findsLiteral_typeGraphArgs (name : String) {args : List Expr}
    (h : ∀ arg ∈ args, FindsLiteral (typeValueOutputs checker env arg) [arg]) :
    ∀ (index : ℕ) (inputs : List TensorType), args.length = inputs.length →
      FindsLiteral (typeGraphArgs checker env name index args inputs) args := by
  induction args with
  | nil => intro index inputs hlen; cases inputs <;> exact .of_pure _
  | cons arg args ih =>
      intro index inputs hlen
      cases inputs with
      | nil => simp at hlen
      | cons expected inputs =>
          have htail := ih (fun a ha => h a (List.mem_cons_of_mem _ ha)) (index + 1) inputs
            (by simpa using hlen)
          have hhead := (h arg (List.mem_cons_self ..)).tensorType arg
          rw [typeGraphArgs]
          refine (hhead.bind fun ty => (FindsLiteral.of_lift _).bind fun _ => htail).weaken ?_
          simp

/-- **A typed expression has literal calls only.** -/
theorem findsLiteral_typeValueOutputs (checker : TypeChecker) (env : TypeEnv) (e : Expr) :
    FindsLiteral (typeValueOutputs checker env e) [e] := by
  induction e with
  | var name =>
      rw [typeValueOutputs]
      cases env.lookup name with
      | none => exact .of_throw _ _
      | some ty => exact (FindsLiteral.of_pure _).weaken (by simp [LiteralCalls, Expr.subexprs])
  | const value elem =>
      rw [typeValueOutputs]
      exact (FindsLiteral.of_pure _).weaken (by simp [LiteralCalls, Expr.subexprs])
  | unary op value ih =>
      rw [typeValueOutputs]
      refine ((ih.tensorType _).bind fun ty => (FindsLiteral.of_lift _).bind fun _ =>
        .of_pure _).weaken ?_
      simp [LiteralCalls, Expr.subexprs]
  | binary op lhs rhs ihl ihr =>
      rw [typeValueOutputs]
      refine ((ihl.tensorType _).bind fun l => (ihr.tensorType _).bind fun r =>
        (FindsLiteral.of_lift _).bind fun _ => .of_pure _).weaken ?_
      intro hparts e he op' args hcall
      rw [List.mem_singleton.mp he] at hcall
      rcases List.mem_append.mp (List.mem_of_ne_of_mem (by simp) hcall) with hl | hr
      · exact hparts lhs (by simp) op' args hl
      · exact hparts rhs (by simp) op' args hr
  | node nodeId value ih =>
      rw [typeValueOutputs]
      refine (findsLiteral_node ih).weaken ?_
      simp [LiteralCalls, Expr.subexprs]
  | tupleGet tupleId value index ih =>
      rw [typeValueOutputs]
      refine FindsLiteral.weaken (ih.bind fun outputs => (?_ : FindsLiteral _ [])) ?_
      · cases outputs[index]? with
        | none => exact .of_throw _ _
        | some ty => exact .of_pure _
      · simp [LiteralCalls, Expr.subexprs]
  | call op args ih =>
      rcases op.eq_graph_or with ⟨name, rfl⟩ | hop
      · rw [typeValueOutputs]
        intro cache tys cache' hcache hrun
        obtain ⟨signature, mid, hlift, hrest⟩ := stateT_bind_eq_ok_iff.mp hrun
        obtain ⟨hresolve, rfl⟩ := stateT_lift_eq_ok_iff.mp hlift
        have hlen := (resolve_eq_ok_iff.mp hresolve).2.2
        have hloop := (findsLiteral_typeGraphArgs name ih 0 signature.inputs hlen).bind
          fun _ => FindsLiteral.of_pure signature.outputs
        refine (hloop.weaken fun hargs e he => ?_) _ tys cache' hcache hrest
        rw [List.mem_singleton.mp he]
        exact literalCalls_call rfl (by simpa using hargs)
      · rw [typeValueOutputs_call hop]
        intro cache tys cache' hcache hrun
        obtain ⟨checked, mid, hlift, hrest⟩ := stateT_bind_eq_ok_iff.mp hrun
        obtain ⟨hvalid, rfl⟩ := stateT_lift_eq_ok_iff.mp hlift
        have hafter := (findsLiteral_typeArgTys ih).bind fun tys =>
          FindsLiteral.of_lift (inferCallResults op tys)
        refine (hafter.weaken fun hargs e he => ?_) _ tys cache' hcache hrest
        rw [List.mem_singleton.mp he]
        exact literalCalls_call hvalid (by simpa using hargs)

theorem findsLiteral_typeLets (lets : List Let) :
    ∀ env, FindsLiteral (typeLets checker env lets) (lets.map Let.value) := by
  induction lets with
  | nil => intro env; exact .of_pure _
  | cons binding rest ih =>
      intro env
      have hvalue : FindsLiteral (typeLetValue checker env binding.value) [binding.value] :=
        ((findsLiteral_typeValueOutputs checker env binding.value).bind fun _ =>
          .of_pure _).weaken (by simp)
      rw [typeLets]
      refine (hvalue.bind fun value => (FindsLiteral.of_lift _).bind fun _ =>
        (ih _).bind fun _ => .of_pure _).weaken ?_
      simp

theorem findsLiteral_typeBody (es : List Expr) :
    FindsLiteral (typeBody checker env es) es := by
  induction es with
  | nil => exact .of_pure _
  | cons e es ih =>
      have hexpr : FindsLiteral (typeTensorExpr checker env e) [e] :=
        (((findsLiteral_typeValueOutputs checker env e).tensorType e).bind fun _ =>
          .of_pure _).weaken (by simp)
      rw [typeBody]
      exact (hexpr.bind fun _ => ih.bind fun _ => .of_pure _).weaken (by simp)

end Checker

/-- **Every static creation call of a graph that the checker accepts has passed the
check of its arguments**, in lets and body and at any depth. -/
theorem literalCalls_of_typeCheck {source : Graph}
    {graphSignatures : List (String × GraphSignature)} {graph : TypedGraph}
    (h : typeCheck source graphSignatures = .ok graph) :
    ∀ e ∈ source.exprs, LiteralCalls e := by
  obtain ⟨cache, hrun⟩ := typeCheck_eq_ok_iff.mp h
  have hfinds : FindsLiteral (typeCheckM source graphSignatures) source.exprs := by
    refine ((findsLiteral_typeLets source.lets _).bind fun _ =>
      (findsLiteral_typeBody source.body).bind fun _ => (FindsLiteral.of_lift _).bind fun _ =>
        .of_pure _).weaken ?_
    simp [Graph.exprs]
  exact (hfinds _ _ _ (fun _ _ hentry => by cases hentry) hrun).2

theorem literalCalls_of_accepted {graph : TypedGraph} (h : graph.Accepted) :
    ∀ e ∈ graph.exprs, LiteralCalls e := by
  obtain ⟨source, graphSignatures, hcheck⟩ := h
  rw [exprs_of_typeCheck hcheck]
  exact literalCalls_of_typeCheck hcheck

end Knok
