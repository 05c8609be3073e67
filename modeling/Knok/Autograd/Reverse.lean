import Mathlib
import Knok.Autograd.Builder

/-!
# Reverse rules

For every forward node whose value has a pending gradient, a reverse rule says
which gradients its operands receive.  A rule reads the types of the operands
and builds expressions; it never looks at the pending gradients themselves.

### Design decisions

* **Contributions.**  A rule is a function to the list of its calls of
  `add_grad_to_expr`, in order: the operand and the gradient it receives.
  `reverseNode` makes the calls.
* `args[0]`, `args[1]` and so on are `argAt`; operations are flattened only with
  the number of arguments that the type rules ask for.
* The nested loops of the pooling and convolution rules are lists of pieces in
  loop order, which `sumPieces` adds up from the left.
-/

namespace Knok.Autograd

open Control

/-! ## Building expressions -/

/-- A call of an operation. -/
def call (op : CallOp) (args : List Expr) : Expr := .call op args

/-- A binary operation. -/
def binary (op : BinaryOp) (lhs rhs : Expr) : Expr := .binary op lhs rhs

/-- A negation. -/
def neg (value : Expr) : Expr := .unary .neg value

/-- A scalar literal. -/
def scalar (value : String) (elem : ElementType) : Expr := .const value elem

/-- Zeros of the type of a value. -/
def zerosLike (value : Expr) : Expr := call .zerosLike [value]

/-- Ones of the type of a value. -/
def onesLike (value : Expr) : Expr := call .onesLike [value]

/-- The gradient where the condition holds, zero elsewhere. -/
def maskGrad (condition grad : Expr) : Expr :=
  call .where_ [condition, grad, zerosLike grad]

/-- A tensor type. -/
def tensor (elem : ElementType) (shape : List ℕ) : TensorType := ⟨elem, shape⟩

/-- The argument at a position. -/
def argAt (args : List Expr) (index : ℕ) : Expr := args.getD index (.var "")

/-- A reshape, unless the types are equal. -/
def reshapeIfNeeded (expr : Expr) (sourceTy targetTy : TensorType) : Expr :=
  if sourceTy = targetTy then expr else call (.reshape targetTy) [expr]

/-- Sums pieces from the left; nothing for no pieces. -/
def sumPieces : List Expr → Option Expr
  | [] => none
  | piece :: pieces => some (pieces.foldl (binary .add) piece)

/-- Concatenates pieces from the left; nothing for no pieces. -/
def concatAll (axis : ℕ) : List Expr → Option Expr
  | [] => none
  | piece :: pieces =>
      some (pieces.foldl (fun acc piece => call (.concat axis) [acc, piece]) piece)

/-! ## Types of operands -/

/-- Operations that no gradient passes. -/
def callStopsGradient (op : CallOp) (outputTy : TensorType) : Bool :=
  !outputTy.elem.isFloat ||
    match op with
    | .detach | .ceil | .floor | .rint | .round | .all _ | .any _ | .argmax _ | .argmin _
    | .isNan | .greater | .greaterEqual | .less | .lessEqual | .equal | .notEqual
    | .logicalAnd | .logicalOr | .logicalXor | .logicalNot | .arange _ | .linspace _
    | .eye _ | .randomUniform _ | .randomInt _ | .staticRandomUniform .. | .staticRandomInt ..
    | .onesLike | .zerosLike => true
    | _ => false

/-- The one result type of an operation. -/
def singleCallType (op : CallOp) (args : List TensorType) : Except Error TensorType := do
  match ← inferCallResults op args with
  | [ty] => return ty
  | _ => throw (error s!"internal autograd error: `{op.name}` is not single-output")

/-- The type of a flattened value. -/
def exprTy (env : String → Option TensorType) : Expr → Except Error TensorType
  | .var name =>
      match env name with
      | some ty => .ok ty
      | none => .error (error s!"unknown value `{name}` in autograd graph")
  | .const _ elem => .ok ⟨elem, []⟩
  | _ => .error (error "internal autograd error: expected a flattened value reference")

/-! ## Undoing reductions and broadcasts -/

/-- Spreads the gradient of a reduction over the reduced axis. -/
def expandReductionGrad (grad : Expr) (gradTy inputTy : TensorType) (axis : AxisSpec) :
    Expr :=
  let (expanded, expandedTy) :=
    match axis with
    | .all => (grad, gradTy)
    | .one axis =>
        let unsqueezedTy := tensor gradTy.elem (gradTy.shape.insertIdx axis 1)
        (call (.reshape unsqueezedTy) [grad], unsqueezedTy)
  if expandedTy = inputTy then expanded else call (.broadcast inputTy) [expanded]

/-- Sums over leading axes until `rank` of them are left. -/
def sumLeading (rank : ℕ) : Expr → List ℕ → Expr × List ℕ
  | expr, [] => (expr, [])
  | expr, dim :: shape =>
      if rank < (dim :: shape).length then
        sumLeading rank (call (.sum (.one 0)) [expr]) shape
      else (expr, dim :: shape)

/-- Sums over the axes from `axis` on that have size one in the target and not
in the source. -/
def sumUnitAxes (elem : ElementType) (target : List ℕ) :
    ℕ → ℕ → Expr × List ℕ → Expr × List ℕ
  | 0, _, current => current
  | left + 1, axis, (expr, shape) =>
      if target.getD axis 0 = 1 ∧ shape.getD axis 0 ≠ 1 then
        let summed := call (.sum (.one axis)) [expr]
        let shape := (shape.eraseIdx axis).insertIdx axis 1
        sumUnitAxes elem target left (axis + 1)
          (call (.reshape ⟨elem, shape⟩) [summed], shape)
      else sumUnitAxes elem target left (axis + 1) (expr, shape)

/-- Sums a gradient over the axes along which its target was broadcast. -/
def unbroadcast (expr : Expr) (sourceTy targetTy : TensorType) : Except Error Expr :=
  let (expr, shape) := sumLeading targetTy.rank expr sourceTy.shape
  if shape.length ≠ targetTy.rank then
    .error (error "cannot unbroadcast gradient to higher-rank target")
  else
    let (expr, shape) := sumUnitAxes sourceTy.elem targetTy.shape targetTy.rank 0 (expr, shape)
    if (⟨sourceTy.elem, shape⟩ : TensorType) ≠ targetTy then
      .error (error
        s!"cannot unbroadcast gradient from {sourceTy.debug} to {targetTy.debug}")
    else .ok expr

/-! ## Contributions -/

/-- Operands and the gradients they receive, in order. -/
abbrev Contributions := Except Error (List (Expr × Expr))

section Rules

variable (env : String → Option TensorType)

/-- Both operands of an elementwise operation receive their gradient, reduced
to their own shape. -/
def binaryContributions (lhs rhs : Expr) (outputTy : TensorType)
    (lhsGrad rhsGrad : Expr) : Contributions := do
  let lhsTy ← exprTy env lhs
  let rhsTy ← exprTy env rhs
  let lhsGrad ← unbroadcast lhsGrad outputTy lhsTy
  let rhsGrad ← unbroadcast rhsGrad outputTy rhsTy
  return [(lhs, lhsGrad), (rhs, rhsGrad)]

/-- The rules of the arithmetic operators. -/
def reverseBinary (op : BinaryOp) (lhs rhs : Expr) (outputTy : TensorType) (grad : Expr) :
    Contributions :=
  match op with
  | .add => binaryContributions env lhs rhs outputTy grad grad
  | .sub => binaryContributions env lhs rhs outputTy grad (neg grad)
  | .mul =>
      binaryContributions env lhs rhs outputTy (binary .mul grad rhs) (binary .mul grad lhs)
  | .div =>
      binaryContributions env lhs rhs outputTy (binary .div grad rhs)
        (neg (binary .div (binary .mul grad lhs) (call .square [rhs])))

/-! ### Linear algebra -/

/-- A vector on the left of a product, as a matrix. -/
def promotedLhsMatmulType (ty : TensorType) : TensorType :=
  if ty.rank = 1 then tensor ty.elem [1, ty.dim 0] else ty

/-- A vector on the right of a product, as a matrix. -/
def promotedRhsMatmulType (ty : TensorType) : TensorType :=
  if ty.rank = 1 then tensor ty.elem [ty.dim 0, 1] else ty

/-- The type of a matrix product. -/
def matmulType (lhs rhs : TensorType) : Except Error TensorType :=
  singleCallType .matmul [lhs, rhs]

/-- A shape without a singleton axis. -/
def removeShapeAxis (shape : List ℕ) (axis : ℕ) : Except Error (List ℕ) :=
  if shape.length ≤ axis then
    .error (error
      s!"internal autograd error: cannot remove axis {axis} from shape {shape}")
  else if shape.getD axis 0 ≠ 1 then
    .error (error
      s!"internal autograd error: expected singleton matmul axis {axis}, got {shape.getD axis 0}")
  else .ok (shape.eraseIdx axis)

/-- A value without a singleton axis. -/
def removeAxis (expr : Expr) (ty : TensorType) (axis : ℕ) :
    Except Error (Expr × TensorType) := do
  let shape ← removeShapeAxis ty.shape axis
  return (call (.reshape ⟨ty.elem, shape⟩) [expr], ⟨ty.elem, shape⟩)

/-- The result type of a product of promoted operands, promotion undone. -/
def demotedMatmulOutputType (promoted : TensorType) (lhsIsVector rhsIsVector : Bool) :
    Except Error TensorType := do
  let shape ←
    if rhsIsVector then removeShapeAxis promoted.shape (promoted.rank - 1)
    else pure promoted.shape
  let shape ← if lhsIsVector then removeShapeAxis shape (promoted.rank - 2) else pure shape
  return ⟨promoted.elem, shape⟩

/-- The operands of a matrix product, vectors promoted to matrices. -/
structure MatmulGradSpec where
  lhsIsVector : Bool
  rhsIsVector : Bool
  lhsMatrixTy : TensorType
  rhsMatrixTy : TensorType
  gradMatrixTy : TensorType

/-- The promoted operands; the demoted result must be the node's type. -/
def MatmulGradSpec.new (lhsTy rhsTy outputTy : TensorType) : Except Error MatmulGradSpec := do
  let lhsIsVector := lhsTy.rank == 1
  let rhsIsVector := rhsTy.rank == 1
  let lhsMatrixTy := promotedLhsMatmulType lhsTy
  let rhsMatrixTy := promotedRhsMatmulType rhsTy
  let gradMatrixTy ← matmulType lhsMatrixTy rhsMatrixTy
  let expected ← demotedMatmulOutputType gradMatrixTy lhsIsVector rhsIsVector
  if expected ≠ outputTy then
    throw (error
      s!"internal autograd matmul type mismatch: expected {expected.debug}, got {outputTy.debug}")
  return ⟨lhsIsVector, rhsIsVector, lhsMatrixTy, rhsMatrixTy, gradMatrixTy⟩

/-- The gradient of the left operand, promotion undone. -/
def MatmulGradSpec.demoteLhsGrad (spec : MatmulGradSpec) (expr : Expr) (ty : TensorType) :
    Except Error (Expr × TensorType) :=
  if spec.lhsIsVector then removeAxis expr ty (ty.rank - 2) else .ok (expr, ty)

/-- The gradient of the right operand, promotion undone. -/
def MatmulGradSpec.demoteRhsGrad (spec : MatmulGradSpec) (expr : Expr) (ty : TensorType) :
    Except Error (Expr × TensorType) :=
  if spec.rhsIsVector then removeAxis expr ty (ty.rank - 1) else .ok (expr, ty)

/-- A matrix, transposed. -/
def swapLastTwo (expr : Expr) (ty : TensorType) : Except Error Expr :=
  if ty.rank < 2 then
    .error (error
      "internal autograd error: matmul operand was not promoted to matrix rank")
  else .ok (call (.swapAxes (ty.rank - 2) (ty.rank - 1)) [expr])

/-- The type of a transposed matrix. -/
def swapLastTwoType (ty : TensorType) : Except Error TensorType :=
  if ty.rank < 2 then
    .error (error
      "internal autograd error: matmul operand was not promoted to matrix rank")
  else .ok ⟨ty.elem, swapDims ty.shape (ty.rank - 2) (ty.rank - 1)⟩

/-- The rule of `matmul`. -/
def reverseMatmul (args : List Expr) (outputTy : TensorType) (grad : Expr) :
    Contributions := do
  let lhsTy ← exprTy env (argAt args 0)
  let rhsTy ← exprTy env (argAt args 1)
  let spec ← MatmulGradSpec.new lhsTy rhsTy outputTy
  let lhs := reshapeIfNeeded (argAt args 0) lhsTy spec.lhsMatrixTy
  let rhs := reshapeIfNeeded (argAt args 1) rhsTy spec.rhsMatrixTy
  let grad := reshapeIfNeeded grad outputTy spec.gradMatrixTy
  let rhsTTy ← swapLastTwoType spec.rhsMatrixTy
  let rhsT ← swapLastTwo rhs spec.rhsMatrixTy
  let lhsGradTy ← matmulType spec.gradMatrixTy rhsTTy
  let (lhsGrad, lhsGradTy) ← spec.demoteLhsGrad (call .matmul [grad, rhsT]) lhsGradTy
  let lhsGrad ← unbroadcast lhsGrad lhsGradTy lhsTy
  let lhsTTy ← swapLastTwoType spec.lhsMatrixTy
  let lhsT ← swapLastTwo lhs spec.lhsMatrixTy
  let rhsGradTy ← matmulType lhsTTy spec.gradMatrixTy
  let (rhsGrad, rhsGradTy) ← spec.demoteRhsGrad (call .matmul [lhsT, grad]) rhsGradTy
  let rhsGrad ← unbroadcast rhsGrad rhsGradTy rhsTy
  return [(argAt args 0, lhsGrad), (argAt args 1, rhsGrad)]

/-- The rule of `dot`. -/
def reverseDot (args : List Expr) (grad : Expr) : Contributions :=
  .ok [(argAt args 0, binary .mul grad (argAt args 1)),
    (argAt args 1, binary .mul grad (argAt args 0))]

/-- The rule of `vecdot`. -/
def reverseVecdot (args : List Expr) (outputTy : TensorType) (axis : Option ℕ)
    (grad : Expr) : Contributions := do
  let lhsTy ← exprTy env (argAt args 0)
  let grad := expandReductionGrad grad outputTy lhsTy (.one (axis.getD (lhsTy.rank - 1)))
  return [(argAt args 0, binary .mul grad (argAt args 1)),
    (argAt args 1, binary .mul grad (argAt args 0))]

/-- The rule of `inner`. -/
def reverseInner (args : List Expr) (outputTy : TensorType) (grad : Expr) :
    Contributions := do
  let lhsTy ← exprTy env (argAt args 0)
  let rhsTy ← exprTy env (argAt args 1)
  if lhsTy.rank = 0 ∨ rhsTy.rank = 0 then
    let lhsGrad ← unbroadcast (binary .mul grad (argAt args 1)) outputTy lhsTy
    let rhsGrad ← unbroadcast (binary .mul grad (argAt args 0)) outputTy rhsTy
    return [(argAt args 0, lhsGrad), (argAt args 1, rhsGrad)]
  else
    let k := lhsTy.dim (lhsTy.rank - 1)
    let lhsPrefix := usizeProduct (lhsTy.shape.take (lhsTy.rank - 1))
    let rhsPrefix := usizeProduct (rhsTy.shape.take (rhsTy.rank - 1))
    let lhs := call (.reshape (tensor lhsTy.elem [lhsPrefix, k])) [argAt args 0]
    let rhs := call (.reshape (tensor lhsTy.elem [rhsPrefix, k])) [argAt args 1]
    let grad := reshapeIfNeeded grad outputTy (tensor lhsTy.elem [lhsPrefix, rhsPrefix])
    let lhsGrad := call (.reshape lhsTy) [call .matmul [grad, rhs]]
    let gradT := call (.transpose []) [grad]
    let rhsGrad := call (.reshape rhsTy) [call .matmul [gradT, lhs]]
    return [(argAt args 0, lhsGrad), (argAt args 1, rhsGrad)]

/-- The rule of `outer`. -/
def reverseOuter (args : List Expr) (outputTy : TensorType) (grad : Expr) :
    Contributions := do
  let lhsTy ← exprTy env (argAt args 0)
  let rhsTy ← exprTy env (argAt args 1)
  let lhsLen := usizeProduct lhsTy.shape
  let rhsLen := usizeProduct rhsTy.shape
  let lhsRow := call (.reshape (tensor lhsTy.elem [1, lhsLen])) [argAt args 0]
  let rhsCol := call (.reshape (tensor lhsTy.elem [rhsLen, 1])) [argAt args 1]
  let grad := reshapeIfNeeded grad outputTy (tensor lhsTy.elem [lhsLen, rhsLen])
  let lhsGrad := call (.reshape lhsTy) [call .matmul [grad, rhsCol]]
  let rhsGrad := call (.reshape rhsTy) [call .matmul [lhsRow, grad]]
  return [(argAt args 0, lhsGrad), (argAt args 1, rhsGrad)]

/-! ### Diagonals -/

/-- The two axes of a diagonal. -/
def diagonalAxes (inputTy : TensorType) (axes : Option (ℕ × ℕ)) : Except Error (ℕ × ℕ) :=
  if inputTy.rank < 2 then
    .error (error "internal autograd error: diagonal op input rank was below 2")
  else
    let pair := axes.getD (inputTy.rank - 2, inputTy.rank - 1)
    if inputTy.rank ≤ pair.1 ∨ inputTy.rank ≤ pair.2 ∨ pair.1 = pair.2 then
      .error (error
        s!"internal autograd error: invalid diagonal axes [{pair.1}, {pair.2}] for {inputTy.debug}")
    else .ok pair

/-- The axes other than two. -/
def otherAxes (rank : ℕ) (axes : ℕ × ℕ) : List ℕ :=
  (List.range rank).filter fun axis => axis != axes.1 && axis != axes.2

/-- A shape without two axes. -/
def removePairShape (shape : List ℕ) (axes : ℕ × ℕ) : List ℕ :=
  (otherAxes shape.length axes).map fun axis => shape.getD axis 0

/-- A type with the two axes of a diagonal moved to its end. -/
def diagonalCompactType (inputTy : TensorType) (axes : ℕ × ℕ) : TensorType :=
  tensor inputTy.elem
    (removePairShape inputTy.shape axes ++ [inputTy.dim axes.1, inputTy.dim axes.2])

/-- Identity matrices along the last two axes. -/
def diagonalEye (inputTy : TensorType) (axes : ℕ × ℕ) (compactTy : TensorType) : Expr :=
  call (.broadcast compactTy)
    [call (.eye (tensor inputTy.elem [inputTy.dim axes.1, inputTy.dim axes.2])) []]

/-- Moves the last two axes back to where a diagonal has them. -/
def permuteCompactDiagonal (compact : Expr) (inputTy : TensorType) (axes : ℕ × ℕ) : Expr :=
  let nonAxes := otherAxes inputTy.rank axes
  let compactAxes := (List.range inputTy.rank).map fun axis =>
    if axis = axes.1 then nonAxes.length
    else if axis = axes.2 then nonAxes.length + 1
    else nonAxes.idxOf axis
  call (.permuteDims compactAxes) [compact]

/-- A gradient of the shape `gradShape`, placed on a diagonal. -/
def diagonalContribution (arg : Expr) (inputTy : TensorType) (axes : ℕ × ℕ)
    (gradShape : List ℕ) (grad : Expr) : List (Expr × Expr) :=
  let compactTy := diagonalCompactType inputTy axes
  let grad := call (.reshape (tensor inputTy.elem gradShape)) [grad]
  let grad := call (.broadcast compactTy) [grad]
  let compact := binary .mul grad (diagonalEye inputTy axes compactTy)
  [(arg, permuteCompactDiagonal compact inputTy axes)]

/-- The rule of `trace`. -/
def reverseTrace (args : List Expr) (outputTy : TensorType) (axes : Option (ℕ × ℕ))
    (grad : Expr) : Contributions := do
  let inputTy ← exprTy env (argAt args 0)
  let axes ← diagonalAxes inputTy axes
  return diagonalContribution (argAt args 0) inputTy axes (outputTy.shape ++ [1, 1]) grad

/-- The rule of `diagonal`. -/
def reverseDiagonal (args : List Expr) (axes : Option (ℕ × ℕ)) (grad : Expr) :
    Contributions := do
  let inputTy ← exprTy env (argAt args 0)
  let axes ← diagonalAxes inputTy axes
  return diagonalContribution (argAt args 0) inputTy axes
    (removePairShape inputTy.shape axes ++ [inputTy.dim axes.1, 1]) grad

/-! ### Elementwise operations -/

/-- The gradient times a local derivative. -/
def localContribution (args : List Expr) (grad local_ : Expr) : Contributions :=
  .ok [(argAt args 0, binary .mul grad local_)]

/-- The gradient divided by a local value. -/
def quotientContribution (args : List Expr) (grad denom : Expr) : Contributions :=
  .ok [(argAt args 0, binary .div grad denom)]

/-- The local derivative of `abs`. -/
def absLocal (value : Expr) : Expr :=
  let zero := zerosLike value
  let one := onesLike value
  call .where_ [call .greater [value, zero], one,
    call .where_ [call .less [value, zero], neg one, zero]]

/-- The rule of `pow`. -/
def reversePow (args : List Expr) (output : Expr) (outputTy : TensorType) (grad : Expr) :
    Contributions := do
  let lhsTy ← exprTy env (argAt args 0)
  let rhsTy ← exprTy env (argAt args 1)
  let lhsLocal := binary .mul (argAt args 1)
    (call .pow [argAt args 0, binary .sub (argAt args 1) (scalar "1.0" outputTy.elem)])
  let lhsGrad ← unbroadcast (binary .mul grad lhsLocal) outputTy lhsTy
  let rhsLocal := binary .mul output (call .log [argAt args 0])
  let rhsGrad ← unbroadcast (binary .mul grad rhsLocal) outputTy rhsTy
  return [(argAt args 0, lhsGrad), (argAt args 1, rhsGrad)]

/-- The rules of `minimum` and `maximum`. -/
def reverseMinimumMaximum (args : List Expr) (outputTy : TensorType) (grad : Expr)
    (maximum : Bool) : Contributions :=
  let (lhsOp, rhsOp) : CallOp × CallOp :=
    if maximum then (.greaterEqual, .greater) else (.lessEqual, .less)
  let lhsMask := call lhsOp [argAt args 0, argAt args 1]
  let rhsMask := call rhsOp [argAt args 1, argAt args 0]
  binaryContributions env (argAt args 0) (argAt args 1) outputTy (maskGrad lhsMask grad)
    (maskGrad rhsMask grad)

/-- The rule of `clip`. -/
def reverseClip (args : List Expr) (outputTy : TensorType) (grad : Expr) :
    Contributions := do
  let value := argAt args 0
  let low := argAt args 1
  let high := argAt args 2
  let valueTy ← exprTy env value
  let lowTy ← exprTy env low
  let highTy ← exprTy env high
  let valueMask := call .logicalAnd
    [call .greaterEqual [value, low], call .lessEqual [value, high]]
  let valueGrad ← unbroadcast (maskGrad valueMask grad) outputTy valueTy
  let lowGrad ← unbroadcast (maskGrad (call .less [value, low]) grad) outputTy lowTy
  let highGrad ← unbroadcast (maskGrad (call .greater [value, high]) grad) outputTy highTy
  return [(value, valueGrad), (low, lowGrad), (high, highGrad)]

/-- The rule of `where`. -/
def reverseWhere (args : List Expr) (outputTy : TensorType) (grad : Expr) : Contributions :=
  binaryContributions env (argAt args 1) (argAt args 2) outputTy
    (maskGrad (argAt args 0) grad)
    (call .where_ [argAt args 0, zerosLike grad, grad])

/-! ### Reductions -/

/-- The number of values that a reduction combines. -/
def reductionCount (inputTy : TensorType) : AxisSpec → ℕ
  | .all => usizeProduct inputTy.shape
  | .one axis => inputTy.dim axis

/-- The text of a count as a float literal. -/
def floatText (count : ℕ) : String := toString count ++ ".0"

/-- The rule of `sum`. -/
def reverseSum (args : List Expr) (outputTy : TensorType) (axis : AxisSpec) (grad : Expr) :
    Contributions := do
  let inputTy ← exprTy env (argAt args 0)
  return [(argAt args 0, expandReductionGrad grad outputTy inputTy axis)]

/-- The rule of `prod`. -/
def reverseProd (args : List Expr) (output : Expr) (outputTy : TensorType) (axis : AxisSpec)
    (grad : Expr) : Contributions := do
  let inputTy ← exprTy env (argAt args 0)
  let output := expandReductionGrad output outputTy inputTy axis
  let grad := expandReductionGrad grad outputTy inputTy axis
  localContribution args grad (binary .div output (argAt args 0))

/-- The rule of `mean`. -/
def reverseMean (args : List Expr) (outputTy : TensorType) (axis : AxisSpec) (grad : Expr) :
    Contributions := do
  let inputTy ← exprTy env (argAt args 0)
  let count := scalar (floatText (reductionCount inputTy axis)) outputTy.elem
  let scaled := binary .div grad count
  return [(argAt args 0, expandReductionGrad scaled outputTy inputTy axis)]

/-- The rules of `max` and `min`. -/
def reverseMaxMin (args : List Expr) (output : Expr) (outputTy : TensorType)
    (axis : AxisSpec) (grad : Expr) : Contributions := do
  let inputTy ← exprTy env (argAt args 0)
  let selected := expandReductionGrad output outputTy inputTy axis
  let grad := expandReductionGrad grad outputTy inputTy axis
  return [(argAt args 0, maskGrad (call .equal [argAt args 0, selected]) grad)]

/-- The deviations from the mean. -/
def centered (arg : Expr) (inputTy outputTy : TensorType) (axis : AxisSpec) : Expr :=
  binary .sub arg (expandReductionGrad (call (.mean axis) [arg]) outputTy inputTy axis)

/-- The rule of `var`. -/
def reverseVar (args : List Expr) (outputTy : TensorType) (axis : AxisSpec) (grad : Expr) :
    Contributions := do
  let inputTy ← exprTy env (argAt args 0)
  if inputTy.rank = 0 ∧ axis = .all then return []
  let grad := expandReductionGrad grad outputTy inputTy axis
  let count := scalar (floatText (reductionCount inputTy axis)) inputTy.elem
  let twice := binary .mul (scalar "2.0" inputTy.elem)
    (centered (argAt args 0) inputTy outputTy axis)
  localContribution args grad (binary .div twice count)

/-- The rule of `std`. -/
def reverseStd (args : List Expr) (output : Expr) (outputTy : TensorType) (axis : AxisSpec)
    (grad : Expr) : Contributions := do
  let inputTy ← exprTy env (argAt args 0)
  if inputTy.rank = 0 ∧ axis = .all then return []
  let grad := expandReductionGrad grad outputTy inputTy axis
  let std := expandReductionGrad output outputTy inputTy axis
  let count := scalar (floatText (reductionCount inputTy axis)) inputTy.elem
  let denom := binary .mul count std
  localContribution args grad
    (binary .div (centered (argAt args 0) inputTy outputTy axis) denom)

/-- The rule of `ptp`. -/
def reversePtp (args : List Expr) (outputTy : TensorType) (axis : AxisSpec) (grad : Expr) :
    Contributions := do
  let inputTy ← exprTy env (argAt args 0)
  if inputTy.rank = 0 ∧ axis = .all then return []
  let max := expandReductionGrad (call (.max axis) [argAt args 0]) outputTy inputTy axis
  let min := expandReductionGrad (call (.min axis) [argAt args 0]) outputTy inputTy axis
  let grad := expandReductionGrad grad outputTy inputTy axis
  let maxGrad := maskGrad (call .equal [argAt args 0, max]) grad
  let minGrad := maskGrad (call .equal [argAt args 0, min]) (neg grad)
  return [(argAt args 0, binary .add maxGrad minGrad)]

/-- The rule of `softmax`. -/
def reverseSoftmax (args : List Expr) (output : Expr) (axis : AxisSpec) (grad : Expr) :
    Contributions := do
  let inputTy ← exprTy env (argAt args 0)
  let reducedTy ← singleCallType (.sum axis) [inputTy]
  let summed := call (.sum axis) [binary .mul grad output]
  let summed := expandReductionGrad summed reducedTy inputTy axis
  return [(argAt args 0, binary .mul output (binary .sub grad summed))]

/-! ### Layout -/

/-- The rules of `reshape`, `squeeze` and `unsqueeze`. -/
def reverseReshape (args : List Expr) (grad : Expr) : Contributions := do
  let inputTy ← exprTy env (argAt args 0)
  return [(argAt args 0, call (.reshape inputTy) [grad])]

/-- The rule of `broadcast`. -/
def reverseBroadcast (args : List Expr) (outputTy : TensorType) (grad : Expr) :
    Contributions := do
  let inputTy ← exprTy env (argAt args 0)
  return [(argAt args 0, ← unbroadcast grad outputTy inputTy)]

/-- The rule of `pad`. -/
def reversePad (args : List Expr) (lows : List ℕ) (grad : Expr) : Contributions := do
  let inputTy ← exprTy env (argAt args 0)
  return [(argAt args 0, call (.slice inputTy lows) [grad])]

/-- The rule of `slice`. -/
def reverseSlice (args : List Expr) (starts : List ℕ) (grad : Expr) : Contributions := do
  let inputTy ← exprTy env (argAt args 0)
  return [(argAt args 0, call (.pad inputTy starts) [grad])]

/-- The rule of `concat`. -/
def reverseConcat (args : List Expr) (axis : ℕ) (grad : Expr) : Contributions := do
  let lhsTy ← exprTy env (argAt args 0)
  let rhsTy ← exprTy env (argAt args 1)
  let lhsStarts := List.replicate lhsTy.rank 0
  let rhsStarts := (List.replicate rhsTy.rank 0).set axis (lhsTy.dim axis)
  return [(argAt args 0, call (.slice lhsTy lhsStarts) [grad]),
    (argAt args 1, call (.slice rhsTy rhsStarts) [grad])]

/-- The rule of `stack`. -/
def reverseStack (args : List Expr) (axis : ℕ) (grad : Expr) : Contributions :=
  .ok [(argAt args 0, call (.take axis 0) [grad]), (argAt args 1, call (.take axis 1) [grad])]

/-- The rule of `take`. -/
def reverseTake (args : List Expr) (axis index : ℕ) (grad : Expr) : Contributions := do
  let inputTy ← exprTy env (argAt args 0)
  let lows := (List.replicate inputTy.rank 0).set axis index
  let expanded := call (.reshape ⟨inputTy.elem, inputTy.shape.set axis 1⟩) [grad]
  return [(argAt args 0, call (.pad inputTy lows) [expanded])]

/-- The slices of a gradient that one axis of a tile repeats. -/
def tileSlices (current : Expr) (rank : ℕ) (sliceTy : TensorType) (axis size multiple : ℕ) :
    List Expr :=
  (List.range multiple).map fun index =>
    call (.slice sliceTy ((List.replicate rank 0).set axis (usizeMul index size))) [current]

/-- Adds up the copies along the axes of a tile, the last axis first. -/
def tileGrad (inputTy : TensorType) :
    List (ℕ × ℕ) → Expr → TensorType → Except Error Expr
  | [], current, _ => .ok current
  | (axis, multiple) :: rest, current, currentTy =>
      if multiple ≤ 1 then tileGrad inputTy rest current currentTy
      else
        let sliceTy : TensorType := ⟨currentTy.elem, currentTy.shape.set axis (inputTy.dim axis)⟩
        match sumPieces
          (tileSlices current currentTy.rank sliceTy axis (inputTy.dim axis) multiple) with
        | some sum => tileGrad inputTy rest sum sliceTy
        | none => .error (error "internal autograd error: empty tile gradient")

/-- The rule of `tile`. -/
def reverseTile (args : List Expr) (outputTy : TensorType) (multiples : List ℕ)
    (grad : Expr) : Contributions := do
  let inputTy ← exprTy env (argAt args 0)
  if 0 ∈ multiples then return [(argAt args 0, zerosLike (argAt args 0))]
  let axes := ((List.range multiples.length).zip multiples).reverse
  return [(argAt args 0, ← tileGrad inputTy axes grad outputTy)]

/-- The rule of `repeat`. -/
def reverseRepeat (args : List Expr) (axis count : ℕ) (grad : Expr) : Contributions := do
  let inputTy ← exprTy env (argAt args 0)
  if count = 0 ∨ inputTy.dim axis = 0 then return [(argAt args 0, zerosLike (argAt args 0))]
  if count = 1 then return [(argAt args 0, grad)]
  let expandedShape := inputTy.shape.insertIdx (axis + 1) count
  if expandedShape.length > 6 then
    throw (error
      "autograd MVP does not support repeat gradients that require rank above 6")
  let expanded := call (.reshape (tensor inputTy.elem expandedShape)) [grad]
  return [(argAt args 0, call (.sum (.one (axis + 1))) [expanded])]

/-- The axes of a transpose; none given means reversal. -/
def defaultAxes (inputTy : TensorType) (axes : List ℕ) : List ℕ :=
  if axes.isEmpty then (List.range inputTy.rank).reverse else axes

/-- The inverse of a permutation of axes. -/
def inversePermutation (axes : List ℕ) : List ℕ :=
  (List.range axes.length).foldl
    (fun inverse outputAxis => inverse.set (axes.getD outputAxis 0) outputAxis)
    (List.replicate axes.length 0)

/-- The rule of `transpose`. -/
def reverseTranspose (args : List Expr) (axes : List ℕ) (grad : Expr) : Contributions := do
  let inputTy ← exprTy env (argAt args 0)
  let inverse := inversePermutation (defaultAxes inputTy axes)
  return [(argAt args 0, call (.transpose inverse) [grad])]

/-- The rules of `permute_dims` and `permute`. -/
def reversePermute (args : List Expr) (axes : List ℕ) (grad : Expr) : Contributions :=
  .ok [(argAt args 0, call (.permuteDims (inversePermutation axes)) [grad])]

/-- The rule of `roll`. -/
def reverseRoll (args : List Expr) (axis shift : ℕ) (grad : Expr) : Contributions := do
  let inputTy ← exprTy env (argAt args 0)
  let dim := inputTy.dim axis
  let reverseShift := if dim = 0 then 0 else (dim - shift % dim) % dim
  return [(argAt args 0, call (.roll axis reverseShift) [grad])]

/-- The rule of `full_like`. -/
def reverseFullLike (args : List Expr) (outputTy : TensorType) (grad : Expr) :
    Contributions := do
  let fillTy ← exprTy env (argAt args 1)
  return [(argAt args 1, ← unbroadcast grad outputTy fillTy)]

/-! ### Indexing -/

/-- The condition that an index selects a position, spread over the output. -/
def reshapeIndexCondition (condition : Expr) (indicesTy outputTy : TensorType) (axis : ℕ) :
    Expr :=
  let maskShape := (List.range indicesTy.rank).foldl
    (fun shape offset => shape.set (usizeAdd axis offset) (indicesTy.dim offset))
    (List.replicate outputTy.rank 1)
  let maskTy := tensor .bool maskShape
  let condition := reshapeIfNeeded condition (tensor .bool indicesTy.shape) maskTy
  let outputBoolTy := tensor .bool outputTy.shape
  if maskTy = outputBoolTy then condition else call (.broadcast outputBoolTy) [condition]

/-- The gradient of one position along the indexed axis. -/
def indexedPiece (indices : Expr) (indicesTy outputTy inputTy : TensorType) (axis : ℕ)
    (reduceAxes : List ℕ) (grad : Expr) (index : ℕ) : Expr :=
  let positive := call .equal [indices, scalar (toString index) indicesTy.elem]
  let negative := call .equal
    [indices, scalar (toString ((index : ℤ) - inputTy.dim axis)) indicesTy.elem]
  let condition := call .logicalOr [positive, negative]
  let condition :=
    if indicesTy.shape = outputTy.shape then condition
    else reshapeIndexCondition condition indicesTy outputTy axis
  let piece := reduceAxes.reverse.foldl
    (fun piece reduceAxis => call (.sum (.one reduceAxis)) [piece]) (maskGrad condition grad)
  call (.reshape ⟨inputTy.elem, inputTy.shape.set axis 1⟩) [piece]

/-- The bytes of an expression on a 64-bit target: a pooling operation, which is
ten words and a tag, beside the vector of its arguments. -/
def exprSize : ℕ := 112

/-- The gradient of an indexed operand, position by position. -/
def indexedAxisGrad (input indices : Expr) (indicesTy outputTy inputTy : TensorType)
    (axis : ℕ) (reduceAxes : List ℕ) (grad : Expr) : Except Error Expr :=
  if inputTy.dim axis = 0 then .ok (zerosLike input)
  -- `Vec::with_capacity` panics on more than `isize::MAX` bytes
  else if 2 ^ 63 ≤ inputTy.dim axis * exprSize then .error (error "capacity overflow")
  else
    let pieces := (List.range (inputTy.dim axis)).map
      (indexedPiece indices indicesTy outputTy inputTy axis reduceAxes grad)
    match concatAll axis pieces with
    | some grad => .ok grad
    | none => .error (error "internal autograd error: empty index gradient")

/-- Indices with negative ones counted from the end. -/
def normalizeIndexTensor (indices : Expr) (elem : ElementType) (axisSize : ℕ) : Expr :=
  let negative := call .less [indices, scalar elem.zeroLiteral elem]
  let shifted := binary .add indices (scalar (toString axisSize) elem)
  call .where_ [negative, shifted, indices]

/-- A broadcast, unless the types are equal. -/
def broadcastIfNeeded (expr : Expr) (sourceTy targetTy : TensorType) : Expr :=
  if sourceTy = targetTy then expr else call (.broadcast targetTy) [expr]

/-- The gradient of `take_along_axis` when the indices have size one along the
axis: one comparison with the positions of the axis. -/
def takeAlongAxisUnitGrad (indices : Expr) (indicesTy outputTy inputTy : TensorType)
    (axis : ℕ) (grad : Expr) : Option Expr :=
  if inputTy.rank ≠ indicesTy.rank ∨ indicesTy.shape ≠ outputTy.shape ∨
      indicesTy.dim axis ≠ 1 then none
  else
    let axisSize := inputTy.dim axis
    let inputIndexTy := tensor indicesTy.elem inputTy.shape
    let normalized := normalizeIndexTensor indices indicesTy.elem axisSize
    let normalized :=
      if indicesTy.shape = inputTy.shape then normalized
      else call (.broadcast inputIndexTy) [normalized]
    let axisValuesTy := tensor indicesTy.elem [axisSize]
    let axisValues := call (.arange axisValuesTy)
      [scalar indicesTy.elem.zeroLiteral indicesTy.elem,
        scalar (toString axisSize) indicesTy.elem]
    let axisGridTy := tensor indicesTy.elem ((List.replicate inputTy.rank 1).set axis axisSize)
    let axisGrid := reshapeIfNeeded axisValues axisValuesTy axisGridTy
    let axisGrid := broadcastIfNeeded axisGrid axisGridTy inputIndexTy
    let condition := call .equal [axisGrid, normalized]
    let grad := broadcastIfNeeded grad outputTy inputTy
    some (maskGrad condition grad)

/-- The rule of `gather`. -/
def reverseGather (args : List Expr) (outputTy : TensorType) (axis : ℕ) (grad : Expr) :
    Contributions := do
  let inputTy ← exprTy env (argAt args 0)
  let indicesTy ← exprTy env (argAt args 1)
  let reduceAxes := (List.range indicesTy.rank).map (axis + ·)
  return [(argAt args 0, ← indexedAxisGrad (argAt args 0) (argAt args 1) indicesTy outputTy
    inputTy axis reduceAxes grad)]

/-- The rule of `take_along_axis`. -/
def reverseTakeAlongAxis (args : List Expr) (outputTy : TensorType) (axis : ℕ)
    (grad : Expr) : Contributions := do
  let inputTy ← exprTy env (argAt args 0)
  let indicesTy ← exprTy env (argAt args 1)
  match takeAlongAxisUnitGrad (argAt args 1) indicesTy outputTy inputTy axis grad with
  | some inputGrad => return [(argAt args 0, inputGrad)]
  | none =>
      return [(argAt args 0, ← indexedAxisGrad (argAt args 0) (argAt args 1) indicesTy outputTy
        inputTy axis [axis] grad)]

/-! ### Windows -/

/-- The input position under a window, unless it lies in the leading padding. -/
def windowPosition (padding : Padding2d) (stride dilation : ℕ × ℕ)
    (outputH outputW kernelH kernelW : ℕ) : Option (ℕ × ℕ) :=
  let paddedH := usizeAdd (usizeMul outputH stride.1) (usizeMul kernelH dilation.1)
  let paddedW := usizeAdd (usizeMul outputW stride.2) (usizeMul kernelW dilation.2)
  if paddedH < padding.top ∨ paddedW < padding.left then none
  else some (paddedH - padding.top, paddedW - padding.left)

/-- The position under a pooling window. -/
def poolInputPosition (options : Pool2dOptions) : ℕ → ℕ → ℕ → ℕ → Option (ℕ × ℕ) :=
  windowPosition options.padding options.stride options.dilation

/-- The position under a convolution kernel. -/
def convInputPosition (options : Conv2dOptions) : ℕ → ℕ → ℕ → ℕ → Option (ℕ × ℕ) :=
  windowPosition options.padding options.stride options.dilation

/-- The type of one position of a pooled value. -/
def poolUnitType (ty : TensorType) : TensorType := tensor ty.elem [ty.dim 0, 1, 1, ty.dim 3]

/-- One position of a pooling output. -/
def poolOutputUnit (output : Expr) (outputTy : TensorType) (oh ow : ℕ) : Expr :=
  call (.slice (poolUnitType outputTy) [0, oh, ow, 0]) [output]

/-- A position of the input, padded to the whole input. -/
def padPoolUnitToInput (unit : Expr) (inputTy : TensorType) (ih iw : ℕ) : Expr :=
  call (.pad inputTy [0, ih, iw, 0]) [unit]

/-- The pieces of a pooling gradient: one for each output position and kernel
position that covers an input position. -/
def poolPieces (inputTy outputTy : TensorType) (options : Pool2dOptions)
    (piece : ℕ → ℕ → ℕ → ℕ → Expr) : List Expr :=
  (List.range (outputTy.dim 1)).flatMap fun oh =>
    (List.range (outputTy.dim 2)).flatMap fun ow =>
      (List.range options.kernel.1).flatMap fun kh =>
        (List.range options.kernel.2).filterMap fun kw =>
          match poolInputPosition options oh ow kh kw with
          | some (ih, iw) =>
              if inputTy.dim 1 ≤ ih ∨ inputTy.dim 2 ≤ iw then none else some (piece oh ow ih iw)
          | none => none

/-- The rule of `avg_pool2d`. -/
def reverseAvgPool2d (args : List Expr) (options : Pool2dOptions) (grad : Expr) :
    Contributions := do
  let inputTy ← exprTy env (argAt args 0)
  let outputTy ← singleCallType (.avgPool2d options) [inputTy]
  let scale := scalar (floatText (usizeMul options.kernel.1 options.kernel.2)) inputTy.elem
  let pieces := poolPieces inputTy outputTy options fun oh ow ih iw =>
    padPoolUnitToInput (binary .div (poolOutputUnit grad outputTy oh ow) scale) inputTy ih iw
  return [(argAt args 0, (sumPieces pieces).getD (zerosLike (argAt args 0)))]

/-- The rule of `max_pool2d`. -/
def reverseMaxPool2d (args : List Expr) (output : Expr) (outputTy : TensorType)
    (options : Pool2dOptions) (grad : Expr) : Contributions := do
  let inputTy ← exprTy env (argAt args 0)
  let pieces := poolPieces inputTy outputTy options fun oh ow ih iw =>
    let inputUnit := call (.slice (poolUnitType inputTy) [0, ih, iw, 0]) [argAt args 0]
    let masked := maskGrad (call .equal [inputUnit, poolOutputUnit output outputTy oh ow])
      (poolOutputUnit grad outputTy oh ow)
    padPoolUnitToInput masked inputTy ih iw
  return [(argAt args 0, (sumPieces pieces).getD (zerosLike (argAt args 0)))]

/-- Where one term of a convolution reads its operands. -/
structure ConvTerm where
  outputChannelStart : ℕ
  inputChannel : ℕ
  localInputChannel : ℕ
  kh : ℕ
  kw : ℕ
  oh : ℕ
  ow : ℕ
  ih : ℕ
  iw : ℕ

/-- The terms of a convolution, in loop order. -/
def convTerms (inputTy kernelTy outputTy : TensorType) (options : Conv2dOptions) :
    List ConvTerm :=
  let inputChannelsPerGroup := inputTy.dim 3 / options.groups
  let outputChannelsPerGroup := kernelTy.dim 3 / options.groups
  (List.range options.groups).flatMap fun group =>
    (List.range (kernelTy.dim 0)).flatMap fun kh =>
      (List.range (kernelTy.dim 1)).flatMap fun kw =>
        (List.range (outputTy.dim 1)).flatMap fun oh =>
          (List.range (outputTy.dim 2)).flatMap fun ow =>
            match convInputPosition options oh ow kh kw with
            | some (ih, iw) =>
                if inputTy.dim 1 ≤ ih ∨ inputTy.dim 2 ≤ iw then []
                else
                  (List.range inputChannelsPerGroup).map fun local_ =>
                    ⟨usizeMul group outputChannelsPerGroup,
                      usizeAdd (usizeMul group inputChannelsPerGroup) local_, local_,
                      kh, kw, oh, ow, ih, iw⟩
            | none => []

/-- The type of one input position of a convolution. -/
def convInputUnitType (inputTy : TensorType) : TensorType :=
  tensor inputTy.elem [inputTy.dim 0, 1, 1, 1]

/-- The channels of one group at one output position. -/
def convOutputChannelBlock (grad : Expr) (outputTy : TensorType) (channels : ℕ)
    (term : ConvTerm) : Expr :=
  call (.slice (tensor outputTy.elem [outputTy.dim 0, 1, 1, channels])
    [0, term.oh, term.ow, term.outputChannelStart]) [grad]

/-- One input channel at one position. -/
def convInputUnit (input : Expr) (inputTy : TensorType) (term : ConvTerm) : Expr :=
  call (.slice (convInputUnitType inputTy) [0, term.ih, term.iw, term.inputChannel]) [input]

/-- The output channels of one kernel position. -/
def convKernelOutputBlock (kernel : Expr) (kernelTy : TensorType) (channels : ℕ)
    (term : ConvTerm) : Expr :=
  call (.slice (tensor kernelTy.elem [1, 1, 1, channels])
    [term.kh, term.kw, term.localInputChannel, term.outputChannelStart]) [kernel]

/-- What one term contributes to the input. -/
def convInputPiece (kernel grad : Expr) (inputTy kernelTy outputTy : TensorType)
    (channels : ℕ) (term : ConvTerm) : Expr :=
  let block := convOutputChannelBlock grad outputTy channels term
  let piece := binary .mul block (convKernelOutputBlock kernel kernelTy channels term)
  let piece := call (.sum (.one 3)) [piece]
  let piece := call (.reshape (convInputUnitType inputTy)) [piece]
  call (.pad inputTy [0, term.ih, term.iw, term.inputChannel]) [piece]

/-- What one term contributes to the kernel. -/
def convKernelPiece (input grad : Expr) (inputTy kernelTy outputTy : TensorType)
    (channels : ℕ) (term : ConvTerm) : Expr :=
  let block := convOutputChannelBlock grad outputTy channels term
  let piece := binary .mul (convInputUnit input inputTy term) block
  let piece := call (.sum (.one 2)) [piece]
  let piece := call (.sum (.one 1)) [piece]
  let piece := call (.sum (.one 0)) [piece]
  let piece := call (.reshape (tensor kernelTy.elem [1, 1, 1, channels])) [piece]
  call (.pad kernelTy
    [term.kh, term.kw, term.localInputChannel, term.outputChannelStart]) [piece]

/-- The rule of `conv2d`. -/
def reverseConv2d (args : List Expr) (outputTy : TensorType) (options : Conv2dOptions)
    (grad : Expr) : Contributions := do
  let input := argAt args 0
  let kernel := argAt args 1
  let inputTy ← exprTy env input
  let kernelTy ← exprTy env kernel
  let channels := kernelTy.dim 3 / options.groups
  let terms := convTerms inputTy kernelTy outputTy options
  let inputPieces :=
    terms.map (convInputPiece kernel grad inputTy kernelTy outputTy channels)
  let kernelPieces :=
    terms.map (convKernelPiece input grad inputTy kernelTy outputTy channels)
  return [(input, (sumPieces inputPieces).getD (zerosLike input)),
    (kernel, (sumPieces kernelPieces).getD (zerosLike kernel))]

/-! ### The table of rules -/

/-- The rule of a call. -/
def reverseCall (node : Node) (op : CallOp) (args : List Expr) (grad : Expr) :
    Contributions :=
  let x := argAt args 0
  let y := Expr.var node.name
  let elem := node.ty.elem
  if callStopsGradient op node.ty then .ok []
  else
    match op with
    | .abs => localContribution args grad (absLocal x)
    | .exp => localContribution args grad y
    | .exp2 => localContribution args grad (binary .mul (scalar "0.6931471805599453" elem) y)
    | .expM1 => localContribution args grad (binary .add y (scalar "1.0" elem))
    | .log => quotientContribution args grad x
    | .log1P => quotientContribution args grad (binary .add x (scalar "1.0" elem))
    | .log2 =>
        quotientContribution args grad (binary .mul x (scalar "0.6931471805599453" elem))
    | .log10 =>
        quotientContribution args grad (binary .mul x (scalar "2.302585092994046" elem))
    | .sin => localContribution args grad (call .cos [x])
    | .cos => localContribution args grad (neg (call .sin [x]))
    | .tan => localContribution args grad (binary .add (onesLike y) (call .square [y]))
    | .tanh => localContribution args grad (binary .sub (onesLike y) (call .square [y]))
    | .relu =>
        .ok [(x, call .where_ [call .greater [x, zerosLike x], grad, zerosLike grad])]
    | .sigmoid =>
        localContribution args grad (binary .mul y (binary .sub (onesLike y) y))
    | .square => localContribution args grad (binary .mul (scalar "2.0" elem) x)
    | .reciprocal => localContribution args grad (neg (call .square [y]))
    | .sqrt => quotientContribution args grad (binary .mul (scalar "2.0" elem) y)
    | .pow => reversePow env args y node.ty grad
    | .minimum => reverseMinimumMaximum env args node.ty grad false
    | .maximum => reverseMinimumMaximum env args node.ty grad true
    | .clip => reverseClip env args node.ty grad
    | .where_ => reverseWhere env args node.ty grad
    | .sum axis => reverseSum env args node.ty axis grad
    | .prod axis => reverseProd env args y node.ty axis grad
    | .mean axis => reverseMean env args node.ty axis grad
    | .max axis | .min axis => reverseMaxMin env args y node.ty axis grad
    | .var axis => reverseVar env args node.ty axis grad
    | .std axis => reverseStd env args y node.ty axis grad
    | .ptp axis => reversePtp env args node.ty axis grad
    | .softmax axis => reverseSoftmax env args y axis grad
    | .matmul => reverseMatmul env args node.ty grad
    | .dot => reverseDot args grad
    | .vecdot axis => reverseVecdot env args node.ty axis grad
    | .inner => reverseInner env args node.ty grad
    | .outer => reverseOuter env args node.ty grad
    | .trace axes => reverseTrace env args node.ty axes grad
    | .diagonal axes => reverseDiagonal env args axes grad
    | .reshape _ | .squeeze _ | .unsqueeze _ => reverseReshape env args grad
    | .broadcast _ => reverseBroadcast env args node.ty grad
    | .pad _ lows => reversePad env args lows grad
    | .slice _ starts => reverseSlice env args starts grad
    | .concat axis => reverseConcat env args axis grad
    | .stack axis => reverseStack args axis grad
    | .take axis index => reverseTake env args axis index grad
    | .tile multiples => reverseTile env args node.ty multiples grad
    | .repeat_ axis count => reverseRepeat env args axis count grad
    | .gather _ axis => reverseGather env args node.ty axis grad
    | .takeAlongAxis axis => reverseTakeAlongAxis env args node.ty axis grad
    | .avgPool2d options => reverseAvgPool2d env args options grad
    | .maxPool2d options => reverseMaxPool2d env args y node.ty options grad
    | .conv2d options => reverseConv2d env args node.ty options grad
    | .transpose axes => reverseTranspose env args axes grad
    | .swapAxes axis0 axis1 => .ok [(x, call (.swapAxes axis0 axis1) [grad])]
    | .moveAxis source destination => .ok [(x, call (.moveAxis destination source) [grad])]
    | .permuteDims axes | .permute _ axes => reversePermute args axes grad
    | .flip axes => .ok [(x, call (.flip axes) [grad])]
    | .roll axis shift => reverseRoll env args axis shift grad
    | .fullLike => reverseFullLike env args node.ty grad
    | _ =>
        .error (error
          s!"autograd MVP does not support differentiating floating-point `{op.name}`")

/-- Integer and boolean results pass no gradient on. -/
theorem reverseCall_of_not_float {node : Node} {op : CallOp} {args : List Expr} {grad : Expr}
    (helem : node.ty.elem.isFloat = false) : reverseCall env node op args grad = .ok [] := by
  simp only [reverseCall, callStopsGradient, helem, Bool.not_false, Bool.true_or, if_true]

/-- The contributions of a forward node. -/
def nodeContributions (node : Node) (grad : Expr) : Contributions :=
  match node.expr with
  | .var name => .ok [(.var name, grad)]
  | .const _ _ => .ok []
  | .unary .neg value => .ok [(value, neg grad)]
  | .binary op lhs rhs => reverseBinary env op lhs rhs node.ty grad
  | .call op args => reverseCall env node op args grad
  | .node .. | .tupleGet .. =>
      .error (error "internal autograd error: forward graph was not flattened")

end Rules

/-! ## Pending gradients -/

/-- Pending gradients by name. -/
abbrev Grads := String → Option Expr

/-- Adds a gradient to what is pending for a name; names that are not floats
have no gradient. -/
def addGrad (env : String → Option TensorType) (name : String) (grad : Expr)
    (grads : Grads) : Except Error Grads :=
  match env name with
  | none => .error (error s!"unknown gradient target `{name}`")
  | some ty =>
      if ty.elem.isFloat then
        .ok (Function.update grads name (some
          (match grads name with
          | some existing => binary .add existing grad
          | none => grad)))
      else .ok grads

/-- Adds a gradient to an operand: a name, or a literal, which has none. -/
def addGradToExpr (env : String → Option TensorType) :
    Expr × Expr → Grads → Except Error Grads
  | (.var name, grad), grads => addGrad env name grad grads
  | (.const _ _, _), grads => .ok grads
  | _, _ => .error (error "internal autograd error: gradient target was not flattened")

/-- Adds a list of contributions one by one. -/
def addContributions (env : String → Option TensorType) :
    List (Expr × Expr) → Grads → Except Error Grads
  | [], grads => .ok grads
  | contribution :: rest, grads => do
      addContributions env rest (← addGradToExpr env contribution grads)

/-- Passes the gradient of a node on to its operands. -/
def reverseNode (env : String → Option TensorType) (node : Node) (grad : Expr)
    (grads : Grads) : Except Error Grads := do
  addContributions env (← nodeContributions env node grad) grads

/-- The reverse pass over forward nodes, the last one first. -/
def reverseNodes (env : String → Option TensorType) :
    List Node → Grads → Except Error Grads
  | [], grads => .ok grads
  | node :: nodes, grads =>
      match grads node.name with
      | none => reverseNodes env nodes grads
      | some grad => do
          reverseNodes env nodes
            (← reverseNode env node grad (Function.update grads node.name none))

end Knok.Autograd
