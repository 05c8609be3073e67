import Mathlib
import Knok.Autograd.Builder

/-!
# Flattening

Differentiation works on a list of lets whose right-hand sides are single
operations on names and literals.  `flattenBoth` brings expressions into that
form: every operation gets a let of its own, shared nodes are expanded where
they occur, a split becomes one slice for each output, and a call to another
graph is replaced by the flattened lets and body of the callee, whose names are
looked up in a scope of their own.

### Design decisions

* **Two functions at once.**  `flatten_expr_scoped` and
  `flatten_expr_outputs_scoped` recurse into the same payloads; `flattenBoth`
  builds the pair by structural recursion.
* **Callees.**  Inlining recurses through the registry; `inlineGraph` takes the
  number of nested callees that are left.
* **The stack** of callees grows *before* the arguments of a call are
  flattened, as in the code, so it is an argument of the recursion.
-/

namespace Knok.Autograd

open Control

/-- A flattened value: a name or a literal, with its type. -/
abbrev Flat := Expr × TensorType

/-- What the names of a callee stand for. -/
abbrev Scope := String → Option Flat

/-- The type of an elementwise operation. -/
def elementwiseType (lhs rhs : TensorType) : Except Error TensorType :=
  if lhs.elem ≠ rhs.elem then
    .error (error "elementwise gradient operands must have matching dtypes")
  else
    match broadcastShapeSlices lhs.shape rhs.shape with
    | .ok shape => .ok ⟨lhs.elem, shape⟩
    | .error message =>
        .error (error s!"elementwise gradient broadcast failed: {message}")

/-- The type rule of the arithmetic operators, where it holds. -/
theorem elementwiseType_of_binaryResultType {lhs rhs ty : TensorType}
    (h : binaryResultType lhs rhs = .ok ty) : elementwiseType lhs rhs = .ok ty := by
  simp only [binaryResultType, broadcastOr, broadcastShape, except_bind_eq_ok_iff,
    failIf_eq_ok_iff, bne_eq_false_iff_eq] at h
  obtain ⟨-, -, -, -, -, hsame, hshape⟩ := h
  cases hjoin : broadcastShapeSlices lhs.shape rhs.shape with
  | error message => rw [hjoin] at hshape; cases hshape
  | ok shape =>
      rw [hjoin] at hshape
      cases hshape
      rw [elementwiseType, if_neg (not_not.mpr hsame), hjoin]

/-- A name in a scope, or else among the names of the builder. -/
def flattenVar (scope : Scope) (name : String) : BuilderM Flat := do
  match scope name with
  | some value => return value
  | none =>
      match (← get).env name with
      | some ty => return (.var name, ty)
      | none => throw (error s!"unknown value `{name}` in autograd graph")

/-- The projection of a list of outputs. -/
def projectOutput (outputs : List Flat) (index : ℕ) : Except Error Flat :=
  match outputs[index]? with
  | some output => .ok output
  | none =>
      .error (error s!"tuple projection index {index} out of bounds for {outputs.length} values")

theorem getElem?_of_projectOutput {outputs : List Flat} {index : ℕ} {flat : Flat}
    (h : projectOutput outputs index = .ok flat) : outputs[index]? = some flat := by
  unfold projectOutput at h
  split at h
  · next output houtput =>
      cases h
      exact houtput
  · cases h

/-- The one output of a call used as a tensor expression. -/
def singleOutput (op : CallOp) (outputs : List Flat) : Except Error Flat :=
  match outputs with
  | [output] => .ok output
  | _ =>
      .error (error
        s!"autograd MVP cannot use multi-output `{op.name}` as a tensor expression ({outputs.length} outputs)")

/-- One slice for each output of a split. -/
def flattenSections (axis : ℕ) (input : Flat) : ℕ → List TensorType → BuilderM (List Flat)
  | _, [] => return []
  | offset, ty :: tys => do
      let starts := (List.replicate input.2.rank 0).set axis offset
      let expr ← bindForwardAuto (.call (.slice ty starts) [input.1]) ty
      let rest ← flattenSections axis input (usizeAdd offset (ty.dim axis)) tys
      return (expr, ty) :: rest

/-- A split, as slices of its argument. -/
def flattenSplitOutputs (axis : ℕ) (sections : List ℕ) (args : List Expr)
    (flatArgs : BuilderM (List Flat)) : BuilderM (List Flat) := do
  if args.length ≠ 1 then throw (error "split expects one argument")
  match ← flatArgs with
  | [input] => do
      let tys ← inferCallResults (.split axis sections) [input.2]
      flattenSections axis input 0 tys
  | _ => throw (error "split expects one argument")

/-- A call with several outputs, kept as one let. -/
def flattenMultiOutputCall (op : CallOp) (flatArgs : BuilderM (List Flat)) :
    BuilderM (List Flat) := do
  let args ← flatArgs
  let tys ← inferCallResults op (args.map Prod.snd)
  if tys.length ≤ 1 then
    throw (error s!"internal autograd error: `{op.name}` is not multi-output")
  bindForwardOutputsAuto (.call op (args.map Prod.fst)) tys

/-- A call with one output. -/
def flattenSingleCall (op : CallOp) (flatArgs : BuilderM (List Flat)) : BuilderM Flat := do
  let args ← flatArgs
  let results ← inferCallResults op (args.map Prod.snd)
  match results with
  | [ty] => do
      let expr ← bindForwardAuto (.call op (args.map Prod.fst)) ty
      return (expr, ty)
  | _ => throw (error s!"autograd MVP does not support multi-output `{op.name}`")

/-- The callee of a graph call, found before its arguments are flattened. -/
def resolveGraph (graphs : Registry) (stack : List String) (name : String) (arity : ℕ) :
    Except Error TypedGraph :=
  if name ∈ stack then
    .error (.callFault .recursive
      s!"recursive graph call `{name}` is not supported by autograd")
  else
    match graphs.get name with
    | none =>
        .error (.callFault .missing
          s!"autograd MVP cannot resolve graph call `{name}` without a graph registry entry")
    | some graph =>
        if graph.inputs.length ≠ arity then
          .error (.callFault .arity
            s!"graph call `{name}` expected {graph.inputs.length} arguments, got {arity}")
        else .ok graph

/-- A callee that is found. -/
theorem resolveGraph_eq_ok {graphs : Registry} {stack : List String} {name : String} {arity : ℕ}
    {graph : TypedGraph} (h : resolveGraph graphs stack name arity = .ok graph) :
    graphs.get name = some graph ∧ graph.inputs.length = arity := by
  unfold resolveGraph at h
  split_ifs at h with hstack
  cases hget : graphs.get name with
  | none => rw [hget] at h; cases h
  | some found =>
      rw [hget] at h
      dsimp only at h
      split_ifs at h with hlen
      cases h
      exact ⟨rfl, not_not.mp hlen⟩

/-! ## Expressions -/

section Expressions

variable (graphs : Registry)
  (inline : List String → String → TypedGraph → Scope → BuilderM (List Flat))

mutual

/-- `flatten_expr_scoped` and `flatten_expr_outputs_scoped` of an expression. -/
def flattenBoth (scope : Scope) :
    Expr → List String → BuilderM Flat × BuilderM (List Flat)
  | .var name, _ => (flattenVar scope name, do return [← flattenVar scope name])
  | .const value elem, _ =>
      (return (.const value elem, ⟨elem, []⟩), return [(.const value elem, ⟨elem, []⟩)])
  | .unary op value, stack =>
      let flat : BuilderM Flat := do
        let (value, ty) ← (flattenBoth scope value stack).1
        let expr ← bindForwardAuto (.unary op value) ty
        return (expr, ty)
      (flat, do return [← flat])
  | .binary op lhs rhs, stack =>
      let flat : BuilderM Flat := do
        let (lhs, lhsTy) ← (flattenBoth scope lhs stack).1
        let (rhs, rhsTy) ← (flattenBoth scope rhs stack).1
        let ty ← elementwiseType lhsTy rhsTy
        let expr ← bindForwardAuto (.binary op lhs rhs) ty
        return (expr, ty)
      (flat, do return [← flat])
  | .node _ value, stack => flattenBoth scope value stack
  | .tupleGet _ value index, stack =>
      let flat : BuilderM Flat := do
        projectOutput (← (flattenBoth scope value stack).2) index
      (flat, do return [← flat])
  | .call (.graph name) args, stack =>
      let outputs : BuilderM (List Flat) := do
        let graph ← resolveGraph graphs stack name args.length
        let local_ ← flattenGraphArgs scope name args (name :: stack) graph.inputs
          fun _ => none
        inline (name :: stack) name graph local_
      (do singleOutput (.graph name) (← outputs), outputs)
  | .call (.split axis sections) args, stack =>
      let outputs := flattenSplitOutputs axis sections args (flattenArgs scope args stack)
      (do singleOutput (.split axis sections) (← outputs), outputs)
  | .call (.randomUniform target) args, stack =>
      let outputs := flattenMultiOutputCall (.randomUniform target)
        (flattenArgs scope args stack)
      (do singleOutput (.randomUniform target) (← outputs), outputs)
  | .call (.randomInt target) args, stack =>
      let outputs := flattenMultiOutputCall (.randomInt target) (flattenArgs scope args stack)
      (do singleOutput (.randomInt target) (← outputs), outputs)
  | .call op args, stack =>
      let flat := flattenSingleCall op (flattenArgs scope args stack)
      (flat, do return [← flat])

/-- Flattens arguments from left to right. -/
def flattenArgs (scope : Scope) : List Expr → List String → BuilderM (List Flat)
  | [], _ => return []
  | arg :: args, stack => do
      let flat ← (flattenBoth scope arg stack).1
      let flats ← flattenArgs scope args stack
      return flat :: flats

/-- Flattens the arguments of a graph call and binds the callee's inputs. -/
def flattenGraphArgs (scope : Scope) (name : String) :
    List Expr → List String → List Input → Scope → BuilderM Scope
  | arg :: args, stack, input :: inputs, local_ => do
      let (expr, ty) ← (flattenBoth scope arg stack).1
      if ty ≠ input.ty then
        throw (error
          s!"graph call `{name}` argument `{input.name}` expected {input.ty.debug}, got {ty.debug}")
      flattenGraphArgs scope name args stack inputs
        (Function.update local_ input.name (some (expr, ty)))
  | _, _, _, local_ => return local_

end

/-- Flattens a tensor expression in a scope. -/
def flattenExprScoped (e : Expr) (stack : List String) (scope : Scope) : BuilderM Flat :=
  (flattenBoth graphs inline scope e stack).1

/-- Flattens the outputs of an expression in a scope. -/
def flattenExprOutputsScoped (e : Expr) (stack : List String) (scope : Scope) :
    BuilderM (List Flat) :=
  (flattenBoth graphs inline scope e stack).2

/-! ## Callees -/

/-- Puts the outputs of a let of a callee into its scope. -/
def bindLocal (name : String) :
    List String → List TensorType → List Flat → Scope → Except Error Scope
  | bound :: names, expected :: tys, (expr, ty) :: outputs, local_ =>
      if ty ≠ expected then
        .error (error s!"graph call `{name}` has an internal let type mismatch")
      else bindLocal name names tys outputs (Function.update local_ bound (some (expr, ty)))
  | _, _, _, local_ => .ok local_

/-- The loop over the lets of a callee. -/
def flattenGraphLets (stack : List String) (name : String) :
    List TypedLet → Scope → BuilderM Scope
  | [], local_ => return local_
  | binding :: lets, local_ => do
      let outputs ←
        flattenExprOutputsScoped graphs inline binding.value.kind stack local_
      if outputs.length ≠ binding.names.length ∨
          outputs.length ≠ binding.value.tys.length then
        throw (error s!"graph call `{name}` has an internal let arity mismatch")
      let local_ ← bindLocal name binding.names binding.value.tys outputs local_
      flattenGraphLets stack name lets local_

/-- The body of a callee. -/
def flattenGraphBody (stack : List String) (name : String) (graph : TypedGraph)
    (local_ : Scope) : BuilderM (List Flat) := do
  let outputs ← graph.body.mapM fun e =>
    flattenExprScoped graphs inline e.kind stack local_
  if outputs.length ≠ graph.outputs.length then
    throw (error s!"graph call `{name}` output arity mismatch")
  if outputs.map Prod.snd ≠ graph.outputs then
    throw (error s!"graph call `{name}` output type mismatch")
  return outputs

end Expressions

/-- Replaces a call by the lets and the body of the callee, with `depth` nested
callees left. -/
def inlineGraph (graphs : Registry) :
    ℕ → List String → String → TypedGraph → Scope → BuilderM (List Flat)
  | 0, _, _, _, _ => throw ⟨.depth, "inlining depth"⟩
  | depth + 1, stack, name, graph, local_ => do
      let local_ ← flattenGraphLets graphs (inlineGraph graphs depth) stack name graph.lets
        local_
      flattenGraphBody graphs (inlineGraph graphs depth) stack name graph local_

/-! ## The root graph -/

section Root

variable (graphs : Registry) (depth : ℕ)

/-- Flattens a tensor expression of the root graph. -/
def flattenExpr (e : Expr) : BuilderM Flat :=
  flattenExprScoped graphs (inlineGraph graphs depth) e [] fun _ => none

/-- Flattens the outputs of an expression of the root graph. -/
def flattenExprOutputs (e : Expr) : BuilderM (List Flat) :=
  flattenExprOutputsScoped graphs (inlineGraph graphs depth) e [] fun _ => none

/-- Flattens the value of a let of the root graph. -/
def flattenValueOutputs (value : TypedValue) : BuilderM (List Flat) := do
  let outputs ← flattenExprOutputs graphs depth value.kind
  if outputs.length ≠ value.tys.length then
    throw (error "internal autograd error: flattened value arity mismatch")
  if outputs.map Prod.snd ≠ value.tys then
    throw (error "internal autograd type mismatch for value")
  return outputs

/-- Binds the names of a let of the root graph to its flattened outputs. -/
def bindTypedLet : List String → List TensorType → List Flat → BuilderM Unit
  | name :: names, expected :: tys, (expr, ty) :: outputs => do
      if ty ≠ expected then
        throw (error "internal autograd type mismatch for let binding")
      bindForwardNode name expr ty
      bindTypedLet names tys outputs
  | _, _, _ => return ()

/-- Flattens a let of the root graph. -/
def flattenTypedLet (binding : TypedLet) : BuilderM Unit := do
  if binding.names.length ≠ binding.value.tys.length then
    throw (error "internal autograd error: let binding arity did not match value arity")
  let outputs ← flattenValueOutputs graphs depth binding.value
  if outputs.length ≠ binding.names.length then
    throw (error "internal autograd error: flattened let binding arity mismatch")
  bindTypedLet binding.names binding.value.tys outputs

/-- Flattens the lets of the root graph. -/
def flattenTypedLets : List TypedLet → BuilderM Unit
  | [] => return ()
  | binding :: lets => do
      flattenTypedLet graphs depth binding
      flattenTypedLets lets

end Root

end Knok.Autograd
