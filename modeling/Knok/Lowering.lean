import Mathlib
import Knok.Ops
import Knok.Semantics
import Knok.Control.Stateful

/-!
# Lowering: scopes, caches and inlining

The lowerer walks a typed graph once and emits operations as it goes.  It keeps

* `values`, the lowered value of every name, mutated in place: while a callee is
  inlined its inputs and lets overwrite the caller's names, and the old entries
  are put back afterwards;
* `nodeValues` and `tupleValues`, the lowered values of shared nodes and tuples,
  keyed by a scope and an id; every inlined call gets a scope of its own, whose
  entries are dropped when the call is done;
* `callStack`, the graphs being expanded, to reject recursion.

What is emitted for a primitive operation is a parameter here, the `Backend`.
`denoteGraph` is the meaning that all of this implements: call-by-value
substitution with an environment, no table, no mutation.

### Design decisions

* **State on failure.**  A failing computation leaves the state it has reached
  (`ExceptT` over a state monad): the closure that expands a callee is followed
  by the restoration of the caller's names whether or not it fails.
* **Two functions at once.**  `lower_expr` and `lower_let_values` recurse into
  the same payloads but differ on nodes (only the first uses the node table), so
  `lowerBoth` builds the pair by structural recursion.
* **Callees.**  Inlining recurses through the registry, not through the
  expression; `inlineGraphValues` takes the number of nested calls that are left.
* **Stacks** have their innermost entry first.
-/

namespace Knok

open Control

/-! ## The back end -/

/-- What is emitted for each kind of expression: values `ν` in, values out.
`call` also sees the argument expressions, from which static creation reads its
literals; `output` turns a body value into a graph output of a declared type. -/
structure Backend (ν : Type) where
  constant : String → ElementType → Except Error ν
  neg : ν → Except Error ν
  binary : BinaryOp → ν → ν → Except Error ν
  call : CallOp → List Expr → List ν → Except Error (List ν)
  output : ν → TensorType → Except Error ν

/-- Operations whose arguments are read as literals and not lowered. -/
def CallOp.isStaticCreation : CallOp → Bool
  | .arange _ | .linspace _ | .eye _ | .staticRandomUniform .. | .staticRandomInt .. => true
  | _ => false

/-! ## State -/

/-- The mutable part of the lowerer. -/
structure LowererState (ν : Type) where
  callStack : List String
  tupleScopeStack : List ℕ
  nextTupleScope : ℕ
  values : String → Option ν
  nodeValues : ℕ × ℕ → Option ν
  tupleValues : ℕ × ℕ → Option (List ν)

/-- A lowering step: the state survives a failure. -/
abbrev LowerM (ν α : Type) := Stateful (LowererState ν) Error α

variable {ν : Type}

/-- The scope of the graph being expanded. -/
def LowererState.currentTupleScope (s : LowererState ν) : ℕ := s.tupleScopeStack.headD 0

/-- The value of a name. -/
def lookupValue (name : String) : LowerM ν ν := do
  match (← get).values name with
  | some value => return value
  | none => throw (.msg s!"unknown value `{name}` during lowering")

/-- The projection of a tuple. -/
def tupleValueAt (values : List ν) (index : ℕ) : Except Error ν :=
  match values[index]? with
  | some value => .ok value
  | none =>
      .error (.msg
        s!"tuple projection index {index} out of bounds for {values.length} values")

/-- Lowers a shared node once in each scope. -/
def lowerNode (nodeId : ℕ) (lowerValue : LowerM ν ν) : LowerM ν ν := do
  let key := ((← get).currentTupleScope, nodeId)
  match (← get).nodeValues key with
  | some value => return value
  | none =>
      let value ← lowerValue
      modify fun s => { s with nodeValues := Function.update s.nodeValues key (some value) }
      return value

/-- Lowers a shared tuple once in each scope, and projects it. -/
def lowerTupleGet (tupleId : ℕ) (lowerValues : LowerM ν (List ν)) (index : ℕ) :
    LowerM ν ν := do
  let key := ((← get).currentTupleScope, tupleId)
  match (← get).tupleValues key with
  | some values => liftM (tupleValueAt values index)
  | none =>
      let values ← lowerValues
      let projected ← liftM (tupleValueAt values index)
      modify fun s => { s with tupleValues := Function.update s.tupleValues key (some values) }
      return projected

/-- The one value of a call used as a tensor expression. -/
def singleValue (op : CallOp) (values : List ν) : Except Error ν :=
  match values with
  | [value] => .ok value
  | _ =>
      .error (.msg
        s!"{op.debug} produces {values.length} values and cannot be used as a tensor expression")

/-! ## Expressions -/

section Expressions

variable (backend : Backend ν) (inline : String → List ν → LowerM ν (List ν))

/-- Lowers a call whose arguments are lowered by `lowerArgs`. -/
def lowerCallValues (op : CallOp) (args : List Expr) (lowerArgs : LowerM ν (List ν)) :
    LowerM ν (List ν) :=
  match op with
  | .graph name => do inline name (← lowerArgs)
  | op =>
      if op.isStaticCreation then liftM (backend.call op args [])
      else do liftM (backend.call op args (← lowerArgs))

mutual

/-- `lower_expr` and `lower_let_values` of an expression. -/
def lowerBoth : Expr → LowerM ν ν × LowerM ν (List ν)
  | .var name => (lookupValue name, do return [← lookupValue name])
  | .const value elem =>
      (liftM (backend.constant value elem), do
        return [← (liftM (backend.constant value elem) : LowerM ν ν)])
  | .unary .neg value =>
      let lowered : LowerM ν ν := do liftM (backend.neg (← (lowerBoth value).1))
      (lowered, do return [← lowered])
  | .binary op lhs rhs =>
      let lowered : LowerM ν ν := do
        let lhs ← (lowerBoth lhs).1
        let rhs ← (lowerBoth rhs).1
        liftM (backend.binary op lhs rhs)
      (lowered, do return [← lowered])
  | .node nodeId value => (lowerNode nodeId (lowerBoth value).1, (lowerBoth value).2)
  | .tupleGet tupleId value index =>
      let lowered := lowerTupleGet tupleId (lowerBoth value).2 index
      (lowered, do return [← lowered])
  | .call op args =>
      let values := lowerCallValues backend inline op args (lowerArgs args)
      (do liftM (singleValue op (← values)), values)

/-- Lowers arguments from left to right. -/
def lowerArgs : List Expr → LowerM ν (List ν)
  | [] => return []
  | arg :: args => do
      let value ← (lowerBoth arg).1
      let values ← lowerArgs args
      return value :: values

end

/-- Lowers a tensor expression. -/
def lowerExpr (e : Expr) : LowerM ν ν := (lowerBoth backend inline e).1

/-- Lowers a let value, node tables bypassed. -/
def lowerLetValues (e : Expr) : LowerM ν (List ν) := (lowerBoth backend inline e).2

/-- Lowers the body of a graph to its declared outputs. -/
def lowerBodyOutputs (body : List TypedExpr) (outputs : List TensorType) :
    LowerM ν (List ν) :=
  if body.length ≠ outputs.length then
    throw (.msg
      s!"internal error: graph body has {body.length} values but signature has {outputs.length} outputs")
  else
    (body.zip outputs).mapM fun (e, output) => do
      liftM (backend.output (← lowerExpr backend inline e.kind) output)

end Expressions

/-! ## Graphs -/

/-- Names bound during an expansion, with the entries they replaced, the latest
first. -/
abbrev Overwritten (ν : Type) := List (String × Option ν)

/-- Binds a name and remembers what it replaced. -/
def insertValue (name : String) (value : ν) :
    LowererState ν × Overwritten ν → LowererState ν × Overwritten ν
  | (s, overwritten) =>
      ({ s with values := Function.update s.values name (some value) },
        (name, s.values name) :: overwritten)

/-- Binds names to values one by one. -/
def insertValues (names : List String) (values : List ν)
    (s : LowererState ν × Overwritten ν) : LowererState ν × Overwritten ν :=
  (names.zip values).foldl (fun s (name, value) => insertValue name value s) s

/-- An expansion in progress: a lowering step next to the overwritten names,
both of which survive a failure. -/
abbrev InlineM (ν α : Type) :=
  Stateful (LowererState ν × Overwritten ν) Error α

/-- A lowering step inside an expansion. -/
def InlineM.lift {α : Type} (m : LowerM ν α) : InlineM ν α :=
  fun (s, overwritten) =>
    let (result, s') := exec m s
    (result, s', overwritten)

/-- Binds the names of a let. -/
def bindValues (names : List String) (values : List ν) : InlineM ν PUnit :=
  if names.length ≠ values.length then
    throw (.msg
      s!"internal error: let binding expected {names.length} values, lowering produced {values.length}")
  else modify (insertValues names values)

section Inlining

variable (backend : Backend ν)

/-- Lowers and binds the lets of a graph. -/
def lowerLets (inline : String → List ν → LowerM ν (List ν)) :
    List Binding → InlineM ν PUnit
  | [] => return ⟨⟩
  | binding :: lets => do
      let values ← InlineM.lift (lowerLetValues backend inline binding.2)
      bindValues binding.1 values
      lowerLets inline lets

/-- Lowers the lets and then the body of a graph. -/
def lowerGraphBody (inline : String → List ν → LowerM ν (List ν)) (graph : TypedGraph) :
    InlineM ν (List ν) := do
  lowerLets backend inline (graph.lets.map TypedLet.binding)
  InlineM.lift (lowerBodyOutputs backend inline graph.body graph.outputs)

/-- Starts an expansion: the callee goes on the stack and gets a new scope. -/
def pushInlineScope (name : String) (s : LowererState ν) : LowererState ν :=
  { s with
    callStack := name :: s.callStack
    tupleScopeStack := s.nextTupleScope :: s.tupleScopeStack
    nextTupleScope := s.nextTupleScope + 1 }

/-- Ends an expansion: the entries of its scope are dropped. -/
def popInlineScope (tupleScope : ℕ) (s : LowererState ν) : LowererState ν :=
  { s with
    callStack := s.callStack.tail
    tupleScopeStack := s.tupleScopeStack.tail
    nodeValues := fun key => if key.1 = tupleScope then none else s.nodeValues key
    tupleValues := fun key => if key.1 = tupleScope then none else s.tupleValues key }

/-- Puts overwritten entries back, the latest first. -/
def restoreValues (overwritten : Overwritten ν) (s : LowererState ν) : LowererState ν :=
  { s with
    values := overwritten.foldl (fun values (name, old) => Function.update values name old)
      s.values }

/-- The checks before a callee is expanded. -/
def resolveCall (graphs : Registry) (callStack : List String) (name : String)
    (arity : ℕ) : Except Error TypedGraph :=
  if name ∈ callStack then
    .error (.callFault .recursive s!"recursive graph call `{name}` is not supported")
  else
    match graphs.get name with
    | none => .error (.callFault .missing s!"unknown graph `{name}` during lowering")
    | some graph =>
        if graph.inputs.length ≠ arity then
          .error (.callFault .arity
            s!"graph `{name}` expects {graph.inputs.length} arguments, got {arity}")
        else .ok graph

/-- Runs an expansion and undoes its bindings, whether or not it fails. -/
def withInlineScope {α : Type} (name : String) (inputs : List String) (args : List ν)
    (expansion : InlineM ν α) : LowerM ν α :=
  fun s =>
    let (result, s', overwritten) :=
      exec expansion (insertValues inputs args (pushInlineScope name s, []))
    (result, popInlineScope s.nextTupleScope (restoreValues overwritten s'))

/-- Expands a call, with `depth` nested calls left. -/
def inlineGraphValues (graphs : Registry) : ℕ → String → List ν → LowerM ν (List ν)
  | depth, name, args => do
      let graph ← liftM (resolveCall graphs (← get).callStack name args.length)
      match depth with
      | 0 => throw ⟨.depth, "call depth"⟩
      | depth + 1 =>
          withInlineScope name (graph.inputs.map Input.name) args
            (lowerGraphBody backend (inlineGraphValues graphs depth) graph)

/-- The state in which a graph is lowered, its inputs bound to `args`. -/
def LowererState.initial (graph : TypedGraph) (args : List ν) : LowererState ν where
  callStack := [graph.name]
  tupleScopeStack := [0]
  nextTupleScope := 1
  values := bindNames (fun _ => none) (graph.inputs.map Input.name) args
  nodeValues := fun _ => none
  tupleValues := fun _ => none

/-- Lowers a graph on values for its inputs.  No callee can be expanded inside
itself, so as many nested calls as there are graphs are enough. -/
def lowerGraph (graphs : Registry) (graph : TypedGraph) (args : List ν) :
    Except Error (List ν) :=
  (exec (lowerGraphBody backend (inlineGraphValues backend graphs graphs.length) graph)
    (LowererState.initial graph args, [])).1

end Inlining

end Knok
