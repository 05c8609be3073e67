import Mathlib
import Knok.ConvRule
import Knok.MovementRule
import Knok.TypedSemantics
import Knok.Arrays.Contraction

/-!
# Exact arithmetic

Tensors over a commutative ring in place of floats.  The operations that a ring
has a meaning for (arithmetic, data movement, sums, products, convolutions) have
it here; literals, division and the remaining operations are parameters.

### Design decisions

* **Typed.**  An operation is defined exactly where the type rules accept its
  arguments, and its results have the inferred types (`Arithmetic.opSemantics`).
* **Static creation.**  The elements of a static creation are read off its
  arguments, and an expression is evaluated only where they pass their check
  (`Arithmetic.interp`).
* **Entries.**  A tensor is a type with an entry at every list of coordinates;
  only those in bounds matter, and `Evaluates` speaks about those.
-/

namespace Knok

open Arrays Control

universe u

/-- A tensor over `R`. -/
structure Tensor (R : Type u) where
  ty : TensorType
  entry : List ℕ → R

/-- What a ring does not say: the values of literals, division, and the entries
of the remaining operations. -/
structure Arithmetic (R : Type u) where
  literal : String → ElementType → R
  div : ElementType → R → R → R
  other : CallOp → List (Tensor R) → ℕ → List ℕ → R

variable {R : Type u} [CommRing R]

/-- The entry of an operand that is broadcast. -/
def Tensor.at (x : Tensor R) (i : List ℕ) : R := x.entry (broadcastIndex x.ty.shape i)

/-- The sum of a tensor over an axis or over all of it. -/
def Tensor.sum (x : Tensor R) (axis : AxisSpec) (i : List ℕ) : R :=
  match axis with
  | .all => ∑ j ∈ box x.ty.shape, x.entry j
  | .one axis => ∑ k ∈ Finset.range (x.ty.dim axis), x.entry (i.insertIdx axis k)

namespace Arithmetic

variable (A : Arithmetic R)

/-- The arithmetic operators, at an element type. -/
def binaryEntry (elem : ElementType) : BinaryOp → R → R → R
  | .add => fun a b => a + b
  | .sub => fun a b => a - b
  | .mul => fun a b => a * b
  | .div => A.div elem

/-- The entries of the results of an operation. -/
def callEntry (op : CallOp) (xs : List (Tensor R)) (result : ℕ) (i : List ℕ) : R :=
  let x := xs.getD 0 ⟨default, fun _ => 0⟩
  let y := xs.getD 1 ⟨default, fun _ => 0⟩
  match op with
  | .square => x.entry i * x.entry i
  | .detach => x.entry i
  | .zerosLike => 0
  | .onesLike => 1
  | .fullLike => y.entry []
  | .broadcast _ => x.at i
  | .squeeze target | .unsqueeze target => x.entry (unravel x.ty.shape (ravel target.shape i))
  | .sum axis => x.sum axis i
  | .matmul => matmul x.ty.shape y.ty.shape x.entry y.entry i
  | .conv2d options =>
      conv2d options.window x.ty.shape y.ty.shape options.groups x.entry y.entry i
  | .split axis sections =>
      x.entry (shiftBy ((List.replicate x.ty.rank 0).set axis (usizeSum (sections.take result))) i)
  | op =>
      if op.movesData then movedArray op (xs.map (·.ty)) (xs.map (·.entry)) result i
      else A.other op xs result i

/-- The results of an operation. -/
def call (op : CallOp) (xs : List (Tensor R)) : Option (List (Tensor R)) :=
  match inferCallResults op (xs.map (·.ty)) with
  | .ok tys => some (tys.zipIdx.map fun (ty, result) => ⟨ty, A.callEntry op xs result⟩)
  | .error _ => none

/-- An arithmetic operator. -/
def binary (op : BinaryOp) (x y : Tensor R) : Option (Tensor R) :=
  match binaryResultType x.ty y.ty with
  | .ok ty => some ⟨ty, fun i => A.binaryEntry ty.elem op (x.at i) (y.at i)⟩
  | .error _ => none

/-- Exact arithmetic as a semantics of the operations. -/
def opSemantics : OpSemantics (Tensor R) where
  const value elem := some ⟨⟨elem, []⟩, fun _ => A.literal value elem⟩
  unary := fun
    | .neg, x => if x.ty.elem.isNumeric then some ⟨x.ty, fun i => -x.entry i⟩ else none
  binary := A.binary
  call := A.call

/-- Exact arithmetic as an interpretation. -/
abbrev interp : Interp (Tensor R) := A.opSemantics.checkedInterp

theorem callEntry_of_movesData {op : CallOp} (hmoves : op.movesData = true)
    (hsplit : ∀ axis sections, op ≠ .split axis sections) (xs : List (Tensor R)) (result : ℕ)
    (i : List ℕ) :
    A.callEntry op xs result i = movedArray op (xs.map (·.ty)) (xs.map (·.entry)) result i := by
  cases op with
  | split axis sections => exact absurd rfl (hsplit axis sections)
  | _ => first | rfl | exact absurd hmoves Bool.false_ne_true

end Arithmetic

end Knok
