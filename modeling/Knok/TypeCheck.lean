import Mathlib
import Knok.StaticCreation
import Knok.Semantics
import Knok.Control.Checked

/-!
# The type checker

`typeCheck` turns an untyped graph into a typed one.  It resolves names in an
environment that later bindings shadow, resolves graph calls in a list of
signatures, and remembers the types of every shared node: the second time a
node id is met, the payload is compared with the recorded one and its types are
reused.  Tuple ids are not recorded.

### Design decisions

* **One recursion.**  The code has two mutually recursive functions on an
  expression, `type_value_outputs` and `type_tensor_expr`; the second is the
  first followed by a check that there is one output (with a text that depends
  on the kind of expression).  `typeValueOutputs` is the recursion,
  `singleOutputType` the check, `typeTensorExpr` their composition.
* **The node table** is the state of the monad; a failure drops it, as a
  failed check ends the run.
* **Pure typing.**  `typeInterp` reads the type rules as an interpretation
  whose values are types, so that `evalOutputs typeInterp` is type inference
  without the table, and `typeValueOutputs_sound` says that the table never
  changes a type as long as no name is rebound.
-/

namespace Knok

open Control

/-! ## Scopes and the node table -/

/-- Types of the names in scope, in binding order. -/
abbrev TypeEnv := List (String × TensorType)

namespace TypeEnv

/-- The scope of the inputs. -/
def fromInputs (inputs : List Input) : TypeEnv :=
  inputs.map fun input => (input.name, input.ty)

/-- The type of the latest binding of a name. -/
def lookup (env : TypeEnv) (name : String) : Option TensorType :=
  List.lookup name env.reverse

/-- The scope after a let. -/
def pushBindings (env : TypeEnv) (names : List String) (tys : List TensorType) :
    TypeEnv :=
  env ++ names.zip tys

end TypeEnv

/-- A recorded node: its payload and the types of its outputs. -/
structure CachedNodeTypes where
  value : Expr
  tys : List TensorType

/-- The nodes met so far, by id. -/
abbrev NodeTypeCache := ℕ → Option CachedNodeTypes

/-- A check that threads the node table. -/
abbrev CheckM := StateT NodeTypeCache (Except Error)

/-- A node id stands for one payload. -/
def ensureSameNodePayload (nodeId : ℕ) (cached current : Expr) : Except Error Unit :=
  failIf (cached != current)
    s!"node id {nodeId} is used for multiple expression payloads"

/-- The recorded output types of a node, if it has been met. -/
def cachedOutputs (nodeId : ℕ) (value : Expr) : CheckM (Option (List TensorType)) := do
  match (← get) nodeId with
  | none => return none
  | some cached =>
      ensureSameNodePayload nodeId cached.value value
      return some cached.tys

/-- Records a node; an entry that is already there stays. -/
def insertNode (nodeId : ℕ) (value : Expr) (tys : List TensorType) : CheckM Unit := do
  match (← get) nodeId with
  | some cached => ensureSameNodePayload nodeId cached.value value
  | none => modify fun cache => Function.update cache nodeId (some ⟨value, tys⟩)

/-! ## Expressions -/

/-- What the checker reads and never changes. -/
structure TypeChecker where
  graphSignatures : List (String × GraphSignature)
  currentGraph : String

/-- The signature registered last under a name. -/
def TypeChecker.signature (checker : TypeChecker) (name : String) :
    Option GraphSignature :=
  List.lookup name checker.graphSignatures.reverse

/-- The signature of a callee, whose number of inputs must be `arity`. -/
def TypeChecker.resolve (checker : TypeChecker) (name : String) (arity : ℕ) :
    Except Error GraphSignature :=
  if name = checker.currentGraph then
    .error (.callFault .recursive s!"recursive graph call `{name}` is not supported")
  else
    match checker.signature name with
    | none =>
        .error (.callFault .missing
          s!"unknown graph call `{name}`; graph calls must refer to registered graph signatures")
    | some signature =>
        if arity ≠ signature.inputs.length then
          .error (.callFault .arity
            s!"graph `{name}` expects {signature.inputs.length} arguments, got {arity}")
        else .ok signature

/-- The one output type of an expression used as a tensor. -/
def singleOutputType (e : Expr) (tys : List TensorType) : Except Error TensorType :=
  match tys with
  | [ty] => .ok ty
  | _ =>
      .error (.msg <| match e with
        | .node .. =>
            s!"node produces {tys.length} values and cannot be used as a tensor expression"
        | .call (.graph name) _ =>
            s!"graph `{name}` returns {tys.length} values and cannot be used as a tensor expression yet"
        | .call op _ =>
            s!"{op.debug} produces {tys.length} values and cannot be used as a tensor expression"
        | _ => s!"{tys.length} values")

/-- The type of a tensor expression, from the run that types its outputs. -/
def tensorType (e : Expr) (outputs : CheckM (List TensorType)) : CheckM TensorType := do
  singleOutputType e (← outputs)

mutual

/-- The types of the outputs of an expression. -/
def typeValueOutputs (checker : TypeChecker) (env : TypeEnv) :
    Expr → CheckM (List TensorType)
  | .var name =>
      match env.lookup name with
      | some ty => return [ty]
      | none => throw (.msg s!"unknown value `{name}`")
  | .const _ elem => return [⟨elem, []⟩]
  | .unary _ value => do
      let ty ← tensorType value (typeValueOutputs checker env value)
      expectNumericElement ty.elem "arithmetic operators"
      return [ty]
  | .binary _ lhs rhs => do
      let lhsTy ← tensorType lhs (typeValueOutputs checker env lhs)
      let rhsTy ← tensorType rhs (typeValueOutputs checker env rhs)
      return [← binaryResultType lhsTy rhsTy]
  | .node nodeId value => do
      match ← cachedOutputs nodeId value with
      | some tys => return tys
      | none =>
          let tys ← typeValueOutputs checker env value
          insertNode nodeId value tys
          return tys
  | .tupleGet _ value index => do
      let outputs ← typeValueOutputs checker env value
      match outputs[index]? with
      | some ty => return [ty]
      | none =>
          throw (.msg
            s!"tuple projection index {index} out of bounds for {outputs.length} values")
  | .call (.graph name) args => do
      let signature ← checker.resolve name args.length
      typeGraphArgs checker env name 0 args signature.inputs
      return signature.outputs
  | .call op args => do
      validateStaticCreationCall op args
      let argTys ← typeArgTys checker env args
      inferCallResults op argTys

/-- The types of the arguments of an operation. -/
def typeArgTys (checker : TypeChecker) (env : TypeEnv) :
    List Expr → CheckM (List TensorType)
  | [] => return []
  | arg :: args => do
      let ty ← tensorType arg (typeValueOutputs checker env arg)
      let tys ← typeArgTys checker env args
      return ty :: tys

/-- The loop over the arguments of a graph call, each compared with the type
that the signature expects. -/
def typeGraphArgs (checker : TypeChecker) (env : TypeEnv) (name : String) :
    ℕ → List Expr → List TensorType → CheckM Unit
  | index, arg :: args, expected :: inputs => do
      let actual ← tensorType arg (typeValueOutputs checker env arg)
      failIf (actual != expected)
        s!"graph `{name}` argument {index} type mismatch: expected {expected.debug}, got {actual.debug}"
      typeGraphArgs checker env name (index + 1) args inputs
  | _, _, _ => return ()

end

/-- Typing an operation other than a graph call. -/
theorem typeValueOutputs_call {checker : TypeChecker} {env : TypeEnv} {op : CallOp}
    (h : ∀ name, op ≠ .graph name) (args : List Expr) :
    typeValueOutputs checker env (.call op args) = (do
      validateStaticCreationCall op args
      let argTys ← typeArgTys checker env args
      inferCallResults op argTys) := by
  cases op with
  | graph name => exact absurd rfl (h name)
  | _ => rfl

/-- The type of a tensor expression. -/
def typeTensorExpr (checker : TypeChecker) (env : TypeEnv) (e : Expr) :
    CheckM TypedExpr := do
  return ⟨e, ← tensorType e (typeValueOutputs checker env e)⟩

/-- The types of the outputs of a let value. -/
def typeLetValue (checker : TypeChecker) (env : TypeEnv) (e : Expr) :
    CheckM TypedValue := do
  return ⟨e, ← typeValueOutputs checker env e⟩

/-! ## Graphs -/

/-- The loop over the lets of a graph. -/
def typeLets (checker : TypeChecker) : TypeEnv → List Let →
    CheckM (TypeEnv × List TypedLet)
  | env, [] => return (env, [])
  | env, binding :: rest => do
      let value ← typeLetValue checker env binding.value
      failIf (binding.names.length != value.tys.length)
        s!"let pattern expects {binding.names.length} values, initializer produces {value.tys.length}"
      let (env, lets) ← typeLets checker (env.pushBindings binding.names value.tys) rest
      return (env, ⟨binding.names, value⟩ :: lets)

/-- The loop over the body of a graph. -/
def typeBody (checker : TypeChecker) (env : TypeEnv) : List Expr → CheckM (List TypedExpr)
  | [] => return []
  | e :: es => do
      let typed ← typeTensorExpr checker env e
      let rest ← typeBody checker env es
      return typed :: rest

/-- Type-checks a graph, threading the node table. -/
def typeCheckM (graph : Graph) (graphSignatures : List (String × GraphSignature)) :
    CheckM TypedGraph := do
  let checker : TypeChecker := ⟨graphSignatures, graph.name⟩
  let (env, lets) ← typeLets checker (.fromInputs graph.inputs) graph.lets
  let body ← typeBody checker env graph.body
  let bodyTys := body.map TypedExpr.ty
  failIf (bodyTys != graph.outputs)
    s!"return type mismatch: inferred {bodyTys.map TensorType.debug}, declared {graph.outputs.map TensorType.debug}"
  return ⟨graph.name, graph.backend, graph.inputs, graph.outputs, lets, body⟩

/-- Type-checks an untyped graph against the signatures of the graphs it may
call. -/
def typeCheck (graph : Graph) (graphSignatures : List (String × GraphSignature)) :
    Except Error TypedGraph :=
  (typeCheckM graph graphSignatures).run' fun _ => none

theorem typeCheck_eq_ok_iff {graph : Graph}
    {graphSignatures : List (String × GraphSignature)} {typed : TypedGraph} :
    typeCheck graph graphSignatures = .ok typed ↔
      ∃ cache, (typeCheckM graph graphSignatures).run (fun _ => none) =
        .ok (typed, cache) := by
  simp only [typeCheck, StateT.run', except_map_eq_ok_iff, Prod.exists]
  constructor
  · rintro ⟨typed', cache, hrun, rfl⟩
    exact ⟨cache, hrun⟩
  · rintro ⟨cache, hrun⟩
    exact ⟨typed, cache, hrun, rfl⟩

/-- A lookup finds nothing, or the types recorded for this payload. -/
theorem cachedOutputs_eq_ok_iff {nodeId : ℕ} {value : Expr} {cache cache' : NodeTypeCache}
    {hit : Option (List TensorType)} :
    (cachedOutputs nodeId value).run cache = .ok (hit, cache') ↔
      cache' = cache ∧ (hit = none ∧ cache nodeId = none ∨
        ∃ tys, hit = some tys ∧ cache nodeId = some ⟨value, tys⟩) := by
  simp only [cachedOutputs, stateT_bind_eq_ok_iff, stateT_get_eq_ok_iff,
    Prod.mk.injEq, existsAndEq, true_and]
  cases hcached : cache nodeId with
  | none =>
      simp only [stateT_pure_eq_ok_iff, Prod.mk.injEq]
      constructor
      · rintro ⟨rfl, rfl⟩
        exact ⟨rfl, .inl ⟨rfl, trivial⟩⟩
      · rintro ⟨rfl, ⟨rfl, -⟩ | ⟨tys, -, hsome⟩⟩
        · exact ⟨rfl, rfl⟩
        · cases hsome
  | some entry =>
      obtain ⟨payload, tys⟩ := entry
      simp only [stateT_bind_eq_ok_iff, stateT_lift_eq_ok_iff, stateT_pure_eq_ok_iff,
        ensureSameNodePayload, failIf_eq_ok_iff, bne_eq_false_iff_eq, Prod.mk.injEq]
      constructor
      · rintro ⟨-, mid, ⟨rfl, rfl⟩, rfl, rfl⟩
        exact ⟨rfl, .inr ⟨tys, rfl, rfl⟩⟩
      · rintro ⟨rfl, ⟨-, hnone⟩ | ⟨tys', rfl, hsome⟩⟩
        · cases hnone
        · cases hsome
          exact ⟨(), cache', ⟨rfl, rfl⟩, rfl, rfl⟩

/-- Recording a node adds an entry, or finds its payload recorded already. -/
theorem insertNode_eq_ok_iff {nodeId : ℕ} {value : Expr} {tys : List TensorType}
    {cache cache' : NodeTypeCache} {u : Unit} :
    (insertNode nodeId value tys).run cache = .ok (u, cache') ↔
      cache nodeId = none ∧
          cache' = Function.update cache nodeId (some ⟨value, tys⟩) ∨
        (∃ tys', cache nodeId = some ⟨value, tys'⟩) ∧ cache' = cache := by
  simp only [insertNode, stateT_bind_eq_ok_iff, stateT_get_eq_ok_iff,
    Prod.mk.injEq, existsAndEq, true_and]
  cases hcached : cache nodeId with
  | none =>
      simp only [stateT_modify_eq_ok_iff, Prod.mk.injEq, true_and, reduceCtorEq,
        exists_false, false_and, or_false]
      exact eq_comm
  | some entry =>
      obtain ⟨payload, tys'⟩ := entry
      simp only [stateT_lift_eq_ok_iff, ensureSameNodePayload, failIf_eq_ok_iff,
        bne_eq_false_iff_eq, reduceCtorEq, false_and, false_or, Option.some.injEq,
        CachedNodeTypes.mk.injEq, exists_and_left, exists_eq', and_true]

/-! ## The node table determines payloads

Every run extends the table, and leaves in it every node of every expression it
has gone through, those inside recorded payloads included.  A run that goes
through a whole graph therefore succeeds only if every node id has one payload.
-/

namespace NodeTypeCache

/-- Entries are never changed. -/
def Extends (cache cache' : NodeTypeCache) : Prop :=
  ∀ nodeId entry, cache nodeId = some entry → cache' nodeId = some entry

/-- Every node of an expression is recorded, with its payload. -/
def Covers (cache : NodeTypeCache) (e : Expr) : Prop :=
  ∀ nodeId value, Expr.node nodeId value ∈ e.subexprs →
    ∃ tys, cache nodeId = some ⟨value, tys⟩

/-- The nodes inside recorded payloads are recorded. -/
def Closed (cache : NodeTypeCache) : Prop :=
  ∀ nodeId entry, cache nodeId = some entry → cache.Covers entry.value

theorem Extends.refl (cache : NodeTypeCache) : cache.Extends cache :=
  fun _ _ h => h

theorem Extends.trans {c₁ c₂ c₃ : NodeTypeCache} (h₁ : c₁.Extends c₂)
    (h₂ : c₂.Extends c₃) : c₁.Extends c₃ :=
  fun nodeId entry h => h₂ nodeId entry (h₁ nodeId entry h)

theorem Covers.mono {cache cache' : NodeTypeCache} {e : Expr}
    (h : cache.Covers e) (hle : cache.Extends cache') : cache'.Covers e := by
  intro nodeId value hmem
  obtain ⟨tys, htys⟩ := h nodeId value hmem
  exact ⟨tys, hle _ _ htys⟩

theorem closed_empty : Closed fun _ => none := by
  intro nodeId entry h
  cases h

/-- Adding a node whose payload is covered. -/
theorem extends_update {cache : NodeTypeCache} {nodeId : ℕ} {entry : CachedNodeTypes}
    (h : cache nodeId = none) :
    cache.Extends (Function.update cache nodeId (some entry)) := by
  intro i x hx
  have hne : i ≠ nodeId := by rintro rfl; rw [h] at hx; cases hx
  rwa [Function.update_of_ne hne]

theorem closed_update {cache : NodeTypeCache} {nodeId : ℕ} {entry : CachedNodeTypes}
    (hnone : cache nodeId = none) (hclosed : cache.Closed)
    (hcovers : cache.Covers entry.value) :
    Closed (Function.update cache nodeId (some entry)) := by
  intro i x hx
  by_cases hi : i = nodeId
  · subst hi
    rw [Function.update_self, Option.some.injEq] at hx
    exact hx ▸ hcovers.mono (extends_update hnone)
  · rw [Function.update_of_ne hi] at hx
    exact (hclosed i x hx).mono (extends_update hnone)

/-- A closed table that records the node covers it. -/
theorem Closed.covers_node {cache : NodeTypeCache} (hclosed : cache.Closed)
    {nodeId : ℕ} {value : Expr} {tys : List TensorType}
    (h : cache nodeId = some ⟨value, tys⟩) : cache.Covers (.node nodeId value) := by
  intro i v hmem
  rcases List.mem_cons.mp hmem with heq | hmem
  · cases heq
    exact ⟨tys, h⟩
  · exact hclosed nodeId _ h i v hmem

end NodeTypeCache

open NodeTypeCache

/-- A run keeps the table closed, extends it, and covers the expressions `es`. -/
def Records {α : Type} (m : CheckM α) (es : List Expr) : Prop :=
  ∀ cache a cache', cache.Closed → m.run cache = .ok (a, cache') →
    cache.Extends cache' ∧ cache'.Closed ∧ ∀ e ∈ es, cache'.Covers e

namespace Records

variable {α β : Type}

theorem weaken {m : CheckM α} {es es' : List Expr} (h : Records m es)
    (hsub : es' ⊆ es) : Records m es' := by
  intro cache a cache' hclosed hrun
  obtain ⟨hle, hclosed', hcovers⟩ := h cache a cache' hclosed hrun
  exact ⟨hle, hclosed', fun e he => hcovers e (hsub he)⟩

theorem of_lift (x : Except Error α) : Records (liftM x : CheckM α) [] := by
  intro cache a cache' hclosed hrun
  obtain ⟨-, rfl⟩ := stateT_lift_eq_ok_iff.mp hrun
  exact ⟨.refl _, hclosed, by simp⟩

theorem of_pure (a : α) : Records (pure a : CheckM α) [] := by
  intro cache b cache' hclosed hrun
  cases stateT_pure_eq_ok_iff.mp hrun
  exact ⟨.refl _, hclosed, by simp⟩

theorem of_throw (e : Error) : Records (throw e : CheckM α) [] := by
  intro cache a cache' hclosed hrun
  exact absurd hrun (by simp)

theorem bind {m : CheckM α} {f : α → CheckM β} {es es' : List Expr}
    (hm : Records m es) (hf : ∀ a, Records (f a) es') :
    Records (m >>= f) (es ++ es') := by
  intro cache b cache' hclosed hrun
  obtain ⟨a, mid, hrunm, hrunf⟩ := stateT_bind_eq_ok_iff.mp hrun
  obtain ⟨hle, hclosedm, hcovers⟩ := hm cache a mid hclosed hrunm
  obtain ⟨hle', hclosed', hcovers'⟩ := hf a mid b cache' hclosedm hrunf
  refine ⟨hle.trans hle', hclosed', fun e he => ?_⟩
  rcases List.mem_append.mp he with he | he
  · exact (hcovers e he).mono hle'
  · exact hcovers' e he

/-- Checks after a run add nothing to the table. -/
theorem then_lift {m : CheckM α} {f : α → Except Error β} {es : List Expr}
    (hm : Records m es) : Records (m >>= fun a => liftM (f a)) es :=
  (hm.bind fun a => of_lift (f a)).weaken (by simp)

end Records

theorem records_tensorType {e : Expr} {m : CheckM (List TensorType)} {es : List Expr}
    (h : Records m es) : Records (tensorType e m) es :=
  h.then_lift

/-- A node of whose payload the run takes care. -/
theorem records_node {nodeId : ℕ} {value : Expr} {m : CheckM (List TensorType)}
    (h : Records m [value]) :
    Records (do
      match ← cachedOutputs nodeId value with
      | some tys => return tys
      | none => do
          let tys ← m
          insertNode nodeId value tys
          return tys) [.node nodeId value] := by
  intro cache tys cache' hclosed hrun
  obtain ⟨hit, mid, hlookup, hrun⟩ := stateT_bind_eq_ok_iff.mp hrun
  obtain ⟨rfl, ⟨rfl, hnone⟩ | ⟨tys', rfl, hsome⟩⟩ := cachedOutputs_eq_ok_iff.mp hlookup
  · obtain ⟨tys', last, hm, hrun⟩ := stateT_bind_eq_ok_iff.mp hrun
    obtain ⟨hle, hclosed', hcovers⟩ := h mid tys' last hclosed hm
    have hvalue : last.Covers value := hcovers value (List.mem_singleton_self _)
    obtain ⟨u, final, hinsert, hrun⟩ := stateT_bind_eq_ok_iff.mp hrun
    obtain ⟨-, hfinal⟩ := Prod.mk.inj (stateT_pure_eq_ok_iff.mp hrun)
    rw [← hfinal]
    obtain ⟨hfresh, hupdate⟩ | ⟨⟨tys'', hfound⟩, hsame⟩ := insertNode_eq_ok_iff.mp hinsert
    · have hentry : Function.update last nodeId (some ⟨value, tys'⟩) nodeId =
          some ⟨value, tys'⟩ := Function.update_self ..
      have hupdated : Closed (Function.update last nodeId (some ⟨value, tys'⟩)) :=
        closed_update hfresh hclosed' hvalue
      rw [hupdate]
      refine ⟨hle.trans (extends_update hfresh), hupdated, fun e he => ?_⟩
      rw [List.mem_singleton.mp he]
      exact hupdated.covers_node hentry
    · rw [hsame]
      refine ⟨hle, hclosed', fun e he => ?_⟩
      rw [List.mem_singleton.mp he]
      exact hclosed'.covers_node hfound
  · obtain ⟨-, hfinal⟩ := Prod.mk.inj (stateT_pure_eq_ok_iff.mp hrun)
    rw [← hfinal]
    refine ⟨.refl _, hclosed, fun e he => ?_⟩
    rw [List.mem_singleton.mp he]
    exact hclosed.covers_node hsome

/-- Covering the parts of an expression that is not itself a node. -/
theorem Records.of_parts {α : Type} {m : CheckM α} {es es' : List Expr}
    (h : Records m es)
    (hparts : ∀ e ∈ es', ∀ nodeId value, Expr.node nodeId value ∈ e.subexprs →
      ∃ part ∈ es, Expr.node nodeId value ∈ part.subexprs) : Records m es' := by
  intro cache a cache' hclosed hrun
  obtain ⟨hle, hclosed', hcovers⟩ := h cache a cache' hclosed hrun
  refine ⟨hle, hclosed', fun e he nodeId value hmem => ?_⟩
  obtain ⟨part, hpart, hmem⟩ := hparts e he nodeId value hmem
  exact hcovers part hpart nodeId value hmem

theorem records_typeArgTys {checker : TypeChecker} {env : TypeEnv} {args : List Expr}
    (h : ∀ arg ∈ args, Records (typeValueOutputs checker env arg) [arg]) :
    Records (typeArgTys checker env args) args := by
  induction args with
  | nil => exact .of_pure _
  | cons arg args ih =>
      have htail := ih fun a ha => h a (List.mem_cons_of_mem _ ha)
      have hhead := records_tensorType (e := arg) (h arg (List.mem_cons_self ..))
      rw [typeArgTys]
      refine (hhead.bind fun ty => htail.bind fun tys => .of_pure _).weaken ?_
      simp

theorem records_typeGraphArgs {checker : TypeChecker} {env : TypeEnv} (name : String)
    {args : List Expr}
    (h : ∀ arg ∈ args, Records (typeValueOutputs checker env arg) [arg]) :
    ∀ (index : ℕ) (inputs : List TensorType), args.length = inputs.length →
      Records (typeGraphArgs checker env name index args inputs) args := by
  induction args with
  | nil => intro index inputs hlen; cases inputs <;> exact .of_pure _
  | cons arg args ih =>
      intro index inputs hlen
      cases inputs with
      | nil => simp at hlen
      | cons expected inputs =>
          have htail := ih (fun a ha => h a (List.mem_cons_of_mem _ ha)) (index + 1) inputs
            (by simpa using hlen)
          have hhead := records_tensorType (e := arg) (h arg (List.mem_cons_self ..))
          rw [typeGraphArgs]
          refine (hhead.bind fun ty => (Records.of_lift _).bind fun _ => htail).weaken ?_
          simp

theorem resolve_eq_ok_iff {checker : TypeChecker} {name : String} {arity : ℕ}
    {signature : GraphSignature} :
    checker.resolve name arity = .ok signature ↔
      name ≠ checker.currentGraph ∧ checker.signature name = some signature ∧
        arity = signature.inputs.length := by
  unfold TypeChecker.resolve
  by_cases hname : name = checker.currentGraph
  · simp [hname]
  · cases hsig : checker.signature name with
    | none => simp [hname]
    | some found =>
        by_cases hlen : arity = found.inputs.length
        · simp only [hname, hlen, ↓reduceIte, ne_eq, not_true_eq_false, not_false_eq_true,
            Except.ok.injEq, Option.some.injEq, true_and]
          constructor
          · rintro rfl
            exact ⟨rfl, rfl⟩
          · rintro ⟨rfl, -⟩
            rfl
        · simp only [hname, hlen, ↓reduceIte, ne_eq, not_false_eq_true, reduceCtorEq,
            Option.some.injEq, true_and, false_iff, not_and]
          rintro rfl
          exact hlen

/-- **Every node of a typed expression is in the table.** -/
theorem records_typeValueOutputs (checker : TypeChecker) (env : TypeEnv) (e : Expr) :
    Records (typeValueOutputs checker env e) [e] := by
  induction e with
  | var name =>
      have h : Records (typeValueOutputs checker env (.var name)) [] := by
        rw [typeValueOutputs]
        cases env.lookup name with
        | none => exact .of_throw _
        | some ty => exact .of_pure _
      exact h.of_parts (by simp [Expr.subexprs])
  | const value elem =>
      rw [typeValueOutputs]
      exact (Records.of_pure _).of_parts (by simp [Expr.subexprs])
  | unary op value ih =>
      rw [typeValueOutputs]
      refine ((records_tensorType ih).bind fun ty => (Records.of_lift _).bind fun _ =>
        .of_pure _).of_parts ?_
      simp [Expr.subexprs]
  | binary op lhs rhs ihl ihr =>
      rw [typeValueOutputs]
      refine ((records_tensorType ihl).bind fun l => (records_tensorType ihr).bind fun r =>
        (Records.of_lift _).bind fun _ => .of_pure _).of_parts ?_
      simp [Expr.subexprs]
  | node nodeId value ih =>
      rw [typeValueOutputs]
      exact records_node ih
  | tupleGet tupleId value index ih =>
      have hproject : ∀ outputs : List TensorType,
          Records (match outputs[index]? with
            | some ty => (return [ty] : CheckM (List TensorType))
            | none => throw (.msg
                s!"tuple projection index {index} out of bounds for {outputs.length} values"))
            [] := by
        intro outputs
        cases outputs[index]? with
        | none => exact .of_throw _
        | some ty => exact .of_pure _
      rw [typeValueOutputs]
      refine (ih.bind hproject).of_parts ?_
      simp [Expr.subexprs]
  | call op args ih =>
      have hargs := records_typeArgTys ih
      have hparts : ∀ e ∈ [Expr.call op args], ∀ nodeId value,
          Expr.node nodeId value ∈ e.subexprs →
            ∃ part ∈ args, Expr.node nodeId value ∈ part.subexprs := by
        simp [Expr.subexprs]
      rcases op.eq_graph_or with ⟨name, rfl⟩ | hop
      · rw [typeValueOutputs]
        intro cache tys cache' hclosed hrun
        obtain ⟨signature, mid, hlift, hrest⟩ := stateT_bind_eq_ok_iff.mp hrun
        obtain ⟨hresolve, hmid⟩ := stateT_lift_eq_ok_iff.mp hlift
        have hlen := (resolve_eq_ok_iff.mp hresolve).2.2
        subst hmid
        have hloop := (records_typeGraphArgs name ih 0 signature.inputs hlen).bind
          fun _ => Records.of_pure signature.outputs
        exact (hloop.of_parts (by simpa using hparts)) _ tys cache' hclosed hrest
      · rw [typeValueOutputs_call hop]
        refine ((Records.of_lift _).bind fun _ => hargs.bind fun tys =>
          .of_lift _).of_parts ?_
        simpa using hparts

theorem records_typeLets (checker : TypeChecker) (lets : List Let) :
    ∀ env, Records (typeLets checker env lets) (lets.map Let.value) := by
  induction lets with
  | nil => intro env; exact .of_pure _
  | cons binding rest ih =>
      intro env
      have hvalue : Records (typeLetValue checker env binding.value) [binding.value] :=
        ((records_typeValueOutputs checker env binding.value).bind fun _ =>
          .of_pure _).weaken (by simp)
      rw [typeLets]
      refine (hvalue.bind fun value => (Records.of_lift _).bind fun _ =>
        (ih _).bind fun _ => .of_pure _).weaken ?_
      simp

theorem records_typeBody (checker : TypeChecker) (env : TypeEnv) (es : List Expr) :
    Records (typeBody checker env es) es := by
  induction es with
  | nil => exact .of_pure _
  | cons e es ih =>
      have hexpr : Records (typeTensorExpr checker env e) [e] :=
        ((records_tensorType (records_typeValueOutputs checker env e)).bind fun _ =>
          .of_pure _).weaken (by simp)
      rw [typeBody]
      exact (hexpr.bind fun _ => ih.bind fun _ => .of_pure _).weaken (by simp)

/-- **In an accepted graph every node id has one payload**, across all lets and
the body, at any depth. -/
theorem sharedNodes_of_typeCheck {graph : Graph}
    {graphSignatures : List (String × GraphSignature)} {typed : TypedGraph}
    (h : typeCheck graph graphSignatures = .ok typed) : SharedNodes graph.exprs := by
  obtain ⟨cache, hrun⟩ := typeCheck_eq_ok_iff.mp h
  have hrecords : Records (typeCheckM graph graphSignatures) graph.exprs := by
    refine ((records_typeLets _ graph.lets _).bind fun _ =>
      (records_typeBody _ _ graph.body).bind fun _ => (Records.of_lift _).bind fun _ =>
        .of_pure _).weaken ?_
    simp [Graph.exprs]
  obtain ⟨-, -, hcovers⟩ := hrecords _ _ _ closed_empty hrun
  rintro nodeId v w ⟨e, he, hv⟩ ⟨e', he', hw⟩
  obtain ⟨tys, hv⟩ := hcovers e he nodeId v hv
  obtain ⟨tys', hw⟩ := hcovers e' he' nodeId w hw
  rw [hv] at hw
  cases hw
  rfl

end Knok
