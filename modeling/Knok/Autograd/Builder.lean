import Mathlib
import Knok.Ops
import Knok.Fresh
import Knok.Semantics
import Knok.Control.Checked

/-!
# The value-and-gradient builder

State and naming of the static autograd transformation.  The builder emits lets
one after the other; a let that the reverse pass has to visit is also recorded
as a forward node.  Every name it makes up is fresh: `nextAutoName` counts up
until it meets a name that is not in use, and marks it as used.

### Design decisions

* `grads` is the code's map from names to pending gradients; `Function.update`
  inserts and removes.
* The stack of graphs being inlined is an argument of the functions that read
  it, not a part of the state: it is pushed and popped in the same call.
-/

namespace Knok.Autograd

open Control

/-- An error of this transformation. -/
def error (message : String) : Error := .msg message

/-- A value of the flattened forward graph. -/
structure Node where
  name : String
  expr : Expr
  ty : TensorType
  deriving DecidableEq

/-- The mutable part of the builder. -/
structure Builder where
  usedNames : List String
  env : String → Option TensorType
  lets : List Let
  forwardNodes : List Node
  grads : String → Option Expr
  nextName : ℕ

/-- A step of the builder. -/
abbrev BuilderM := StateT Builder (Except Error)

/-! ## Names -/

/-- The candidates for generated names. -/
def autoName (index : ℕ) : String := "__knok_autograd_" ++ toString index

theorem autoName_injective : Function.Injective autoName := by
  intro i j h
  exact Nat.repr_injective ((String.append_right_inj _).mp h)

/-- The number of the next generated name. -/
def Builder.nextIndex (s : Builder) : ℕ :=
  Fresh.freshIndex autoName s.usedNames s.usedNames.length s.nextName

/-- The next generated name. -/
def Builder.autoName (s : Builder) : String := Autograd.autoName s.nextIndex

/-- The builder after a generated name has been taken. -/
def Builder.takeName (s : Builder) : Builder :=
  { s with usedNames := s.autoName :: s.usedNames, nextName := s.nextIndex + 1 }

/-- **A generated name is not in use.** -/
theorem Builder.autoName_not_mem (s : Builder) : s.autoName ∉ s.usedNames :=
  Fresh.freshIndex_not_mem autoName_injective s.usedNames s.nextName

/-- Takes the first generated name that is not in use. -/
def nextAutoName : BuilderM String := do
  let s ← get
  set s.takeName
  return s.autoName

/-- The first of `base`, `base_1`, `base_2`, … that is not in use. -/
def uniqueName (base : String) (used : List String) : String :=
  Fresh.nameCandidate base
    (Fresh.freshIndex (Fresh.nameCandidate base) used used.length 0)

theorem uniqueName_not_mem (base : String) (used : List String) :
    uniqueName base used ∉ used :=
  Fresh.freshIndex_not_mem (Fresh.nameCandidate_injective base) used 0

/-! ## Binding -/

/-- The builder after a let of one name. -/
def Builder.bindNamed (s : Builder) (name : String) (expr : Expr) (ty : TensorType) :
    Builder :=
  { s with
    lets := s.lets ++ [⟨[name], expr⟩]
    env := Function.update s.env name (some ty) }

/-- The builder after a let of one name that the reverse pass visits. -/
def Builder.bindForward (s : Builder) (name : String) (expr : Expr) (ty : TensorType) :
    Builder :=
  { s.bindNamed name expr ty with forwardNodes := s.forwardNodes ++ [⟨name, expr, ty⟩] }

/-- Emits a let. -/
def bindNamed (name : String) (expr : Expr) (ty : TensorType) : BuilderM Unit :=
  modify fun s => s.bindNamed name expr ty

/-- Emits a let that the reverse pass visits. -/
def bindForwardNode (name : String) (expr : Expr) (ty : TensorType) : BuilderM Unit :=
  modify fun s => s.bindForward name expr ty

/-- Emits a let under a generated name, for the reverse pass to visit. -/
def bindForwardAuto (expr : Expr) (ty : TensorType) : BuilderM Expr := do
  let name ← nextAutoName
  bindForwardNode name expr ty
  return .var name

/-- Emits a let under a generated name. -/
def bindAuto (expr : Expr) (ty : TensorType) : BuilderM Expr := do
  let name ← nextAutoName
  bindNamed name expr ty
  return .var name

/-- Takes `count` generated names. -/
def nextAutoNames : ℕ → BuilderM (List String)
  | 0 => return []
  | count + 1 => do
      let name ← nextAutoName
      let names ← nextAutoNames count
      return name :: names

/-- The builder after the names of a multi-output let have been recorded. -/
def Builder.pushOutputs (s : Builder) (expr : Expr) (outputs : List (String × TensorType)) :
    Builder :=
  { s with
    env := bindNames s.env (outputs.map Prod.fst) (outputs.map Prod.snd)
    forwardNodes := s.forwardNodes ++ outputs.map fun (name, ty) => ⟨name, expr, ty⟩ }

/-- Emits one let for all outputs of an expression. -/
def bindForwardOutputsAuto (expr : Expr) (tys : List TensorType) :
    BuilderM (List (Expr × TensorType)) := do
  let names ← nextAutoNames tys.length
  modify fun s => { s with lets := s.lets ++ [⟨names, expr⟩] }
  modify fun s => s.pushOutputs expr (names.zip tys)
  return (names.zip tys).map fun (name, ty) => (.var name, ty)

end Knok.Autograd
