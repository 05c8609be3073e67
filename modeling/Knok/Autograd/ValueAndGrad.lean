import Mathlib
import Knok.TypeCheck
import Knok.Autograd.Flatten
import Knok.Autograd.Reverse

/-!
# Value-and-gradient graphs

`valueAndGradGraphWithRegistry` turns a typed graph with one scalar float
output, the loss, into a graph with the same inputs that returns the loss and
its gradient with respect to every float input.  The forward graph is flattened,
the loss is bound to a name of its own, the reverse pass visits the forward
nodes from the last to the first, and what is pending for an input at the end is
its gradient.  The result goes through the type checker.
-/

namespace Knok.Autograd

open Control

/-- Largest number of outputs of a value-and-gradient graph. -/
def maxValueAndGradOutputs : ℕ := 12

/-- The float inputs of a graph. -/
def differentiableInputs (graph : TypedGraph) : List Input :=
  graph.inputs.filter fun input => input.ty.elem.isFloat

/-- The checks that the transformation starts with. -/
def validateGraph (graph : TypedGraph) : Except Error Unit := do
  match graph.outputs with
  | [lossTy] =>
      if lossTy.rank ≠ 0 ∨ lossTy.elem.isFloat = false then
        throw (error
          "autograd MVP expects the graph output to be a rank-0 floating-point loss")
      let count := (differentiableInputs graph).length
      if count = 0 then
        throw (error "autograd MVP expects at least one floating-point input")
      if maxValueAndGradOutputs < count + 1 then
        throw (error
          s!"autograd MVP supports at most {maxValueAndGradOutputs - 1} floating-point inputs, got {count}")
  | _ => throw (error "autograd MVP expects a single-output graph")

/-- The name that the loss is bound to. -/
def valueName (graph : TypedGraph) : String :=
  uniqueName "__knok_autograd_value" graph.boundNames

/-- The builder before the first let. -/
def Builder.initial (graph : TypedGraph) : Builder where
  usedNames := valueName graph :: graph.boundNames
  env := bindNames (fun _ => none) (graph.inputs.map Input.name) (graph.inputs.map Input.ty)
  lets := []
  forwardNodes := []
  grads := fun _ => none
  nextName := 0

/-- Flattens the lets and the loss of a graph, and binds the loss. -/
def flattenLoss (graphs : Registry) (depth : ℕ) (graph : TypedGraph) : BuilderM TensorType := do
  flattenTypedLets graphs depth graph.lets
  match graph.body with
  | [] => throw (error "single output was validated")
  | body :: _ => do
      let (valueExpr, valueTy) ← flattenExpr graphs depth body.kind
      if valueTy ≠ body.ty then
        throw (error "internal autograd type mismatch for graph body")
      bindForwardNode (valueName graph) valueExpr valueTy
      return valueTy

/-- Binds what is pending for an input, or zeros, as the input's gradient. -/
def gradientOutputForInput (input : Input) : BuilderM Expr := do
  let grad := ((← get).grads input.name).getD (zerosLike (.var input.name))
  modify fun s => { s with grads := Function.update s.grads input.name none }
  bindAuto grad input.ty

/-- The gradient outputs, in input order. -/
def gradientOutputs : List Input → BuilderM (List Expr)
  | [] => return []
  | input :: inputs => do
      let grad ← gradientOutputForInput input
      let rest ← gradientOutputs inputs
      return grad :: rest

/-- The untyped value-and-gradient graph. -/
def buildGraph (graphs : Registry) (graph : TypedGraph) : BuilderM Graph := do
  let valueTy ← flattenLoss graphs graphs.length graph
  let s ← get
  let seed := Function.update s.grads (valueName graph) (some (.const "1.0" valueTy.elem))
  let grads ← reverseNodes s.env s.forwardNodes.reverse seed
  set { s with grads := grads }
  let inputs := differentiableInputs graph
  let gradients ← gradientOutputs inputs
  return {
    name := graph.name ++ "_value_and_grad"
    backend := graph.backend
    inputs := graph.inputs
    outputs := graph.outputs.take 1 ++ inputs.map Input.ty
    lets := (← get).lets
    body := .var (valueName graph) :: gradients }

/-- Builds the value-and-gradient graph of a typed scalar-loss graph, its calls
resolved in a registry. -/
def valueAndGradGraphWithRegistry (graph : TypedGraph) (graphs : Registry) :
    Except Error TypedGraph := do
  validateGraph graph
  let built ← (buildGraph graphs graph).run' (.initial graph)
  typeCheck built []

/-- Builds the value-and-gradient graph of a graph that calls no other. -/
def valueAndGradGraph (graph : TypedGraph) : Except Error TypedGraph :=
  valueAndGradGraphWithRegistry graph []

/-! ## Successful runs -/

/-- **The stages of a successful run**: the forward pass, the reverse pass on its
nodes, and the gradient outputs. -/
theorem buildGraph_eq_ok {graphs : Registry} {graph : TypedGraph} {built : Graph} {s : Builder}
    (h : (buildGraph graphs graph).run (.initial graph) = .ok (built, s)) :
    ∃ ty mid grads gradients,
      (flattenLoss graphs graphs.length graph).run (.initial graph) = .ok (ty, mid) ∧
      reverseNodes mid.env mid.forwardNodes.reverse
        (Function.update mid.grads (valueName graph) (some (.const "1.0" ty.elem))) = .ok grads ∧
      (gradientOutputs (differentiableInputs graph)).run { mid with grads := grads } =
        .ok (gradients, s) ∧
      built = {
        name := graph.name ++ "_value_and_grad"
        backend := graph.backend
        inputs := graph.inputs
        outputs := graph.outputs.take 1 ++ (differentiableInputs graph).map Input.ty
        lets := s.lets
        body := .var (valueName graph) :: gradients } := by
  obtain ⟨ty, mid, hflat, hrest⟩ := stateT_bind_eq_ok_iff.mp h
  obtain ⟨_, _, hget, hrest⟩ := stateT_bind_eq_ok_iff.mp hrest
  cases stateT_get_eq_ok_iff.mp hget
  obtain ⟨grads, _, hlift, hrest⟩ := stateT_bind_eq_ok_iff.mp hrest
  obtain ⟨hgrads, rfl⟩ := stateT_lift_eq_ok_iff.mp hlift
  obtain ⟨_, _, hset, hrest⟩ := stateT_bind_eq_ok_iff.mp hrest
  cases stateT_set_eq_ok_iff.mp hset
  obtain ⟨gradients, last, hgradients, hrest⟩ := stateT_bind_eq_ok_iff.mp hrest
  obtain ⟨_, _, hget, hrest⟩ := stateT_bind_eq_ok_iff.mp hrest
  cases stateT_get_eq_ok_iff.mp hget
  cases stateT_pure_eq_ok_iff.mp hrest
  exact ⟨ty, _, grads, gradients, hflat, hgrads, hgradients, rfl⟩

/-- A generated graph is a graph that was built, and checked. -/
theorem valueAndGradGraph_eq_ok {graphs : Registry} {graph typed : TypedGraph}
    (h : valueAndGradGraphWithRegistry graph graphs = .ok typed) :
    validateGraph graph = .ok () ∧ ∃ built s,
      (buildGraph graphs graph).run (.initial graph) = .ok (built, s) ∧
        typeCheck built [] = .ok typed := by
  obtain ⟨_, hvalid, hafter⟩ := except_bind_eq_ok_iff.mp h
  obtain ⟨built, hbuild, hcheck⟩ := except_bind_eq_ok_iff.mp hafter
  obtain ⟨⟨built', s⟩, hrun, rfl⟩ := except_map_eq_ok_iff.mp hbuild
  exact ⟨hvalid, built', s, hrun, hcheck⟩

end Knok.Autograd
