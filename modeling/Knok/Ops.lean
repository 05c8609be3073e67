import Mathlib
import Knok.Ast

/-!
# Type rules of the primitive operations

`inferCallResults` assigns to an operation and the types of its arguments the
types of its results.  It is the only place where the front end decides
shapes; the back end computes them a second time while it emits code.

The rules are grouped as the code groups them: helpers shared by all rules
(broadcasting, reductions, element-kind checks), then convolution, pooling,
linear algebra, matrix product and permutation, then the table itself.
Every rule runs in `Except Error`, and the checks stand in source order, so the
first failing check decides the text of the error.
-/

namespace Knok

instance : Inhabited TensorType := ⟨⟨.f32, []⟩⟩

/-- The size of dimension `axis`; used where the axis has been checked. -/
def TensorType.dim (ty : TensorType) (axis : ℕ) : ℕ := ty.shape.getD axis 0

/-! ## Shared helpers -/

/-- Number of elements of a tensor of this type, as the code computes it. -/
def elementCount (ty : TensorType) : ℕ := usizeProduct ty.shape

/-- The dimension of `shape` at distance `offset` from the leading end of a
shape of rank `rank`, when the two shapes are aligned at their trailing end. -/
def dimFromTrailing (shape : List ℕ) (rank offset : ℕ) : Option ℕ :=
  let pad := rank - shape.length
  if pad ≤ offset then shape[offset - pad]? else none

/-- One dimension of a broadcast result. -/
def broadcastDim (offset : ℕ) : Option ℕ → Option ℕ → Except String ℕ
  | some lhsDim, some rhsDim =>
      if lhsDim = rhsDim then .ok lhsDim
      else if lhsDim = 1 then .ok rhsDim
      else if rhsDim = 1 then .ok lhsDim
      else .error s!"dimension {offset} differs: {lhsDim} vs {rhsDim}"
  | none, some dim => .ok dim
  | some dim, none => .ok dim
  | none, none => .error "rank is derived from at least one shape"

/-- NumPy-style broadcasting of two shapes. -/
def broadcastShapeSlices (lhs rhs : List ℕ) : Except String (List ℕ) :=
  let rank := Nat.max lhs.length rhs.length
  (List.range rank).mapM fun offset =>
    broadcastDim offset (dimFromTrailing lhs rank offset)
      (dimFromTrailing rhs rank offset)

/-- Broadcasting of the shapes of two types. -/
def broadcastShape (lhs rhs : TensorType) : Except String (List ℕ) :=
  broadcastShapeSlices lhs.shape rhs.shape

/-- The axis exists. -/
def expectAxis (input : TensorType) (axis : ℕ) : Except Error Unit :=
  if axis < input.rank then .ok ()
  else .error (.msg
    s!"axis {axis} is out of bounds for rank-{input.rank} tensor {input.shape}")

/-- Result type of a reduction that drops its axes. -/
def reductionOutputType (input : TensorType) : AxisSpec → Except Error TensorType
  | .one axis => do
      expectAxis input axis
      return ⟨input.elem, input.shape.eraseIdx axis⟩
  | .all => return ⟨input.elem, []⟩

/-- The reduced axes hold at least one element. -/
def expectNonEmptyReduction (input : TensorType) (axis : AxisSpec)
    (opName : String) : Except Error Unit :=
  match axis with
  | .one axis => do
      expectAxis input axis
      failIf (input.dim axis == 0)
        s!"{opName} cannot reduce empty axis {axis} for tensor shape {input.shape}"
  | .all =>
      failIf (elementCount input == 0)
        s!"{opName} cannot reduce empty tensor shape {input.shape}"

/-- The text of a wrong number of arguments. -/
def arityError (op : CallOp) (expected got : ℕ) : Error :=
  .msg s!"{op.name} expects {expected} arguments, got {got}"

/-- `expect_arity(op, args, 0)`. -/
def expectNullary (op : CallOp) (args : List TensorType) : Except Error Unit :=
  match args with
  | [] => .ok ()
  | _ => .error (arityError op 0 args.length)

/-- `expect_arity(op, args, 1)`, with the argument. -/
def expectUnary (op : CallOp) (args : List TensorType) : Except Error TensorType :=
  match args with
  | [a] => .ok a
  | _ => .error (arityError op 1 args.length)

/-- `expect_arity(op, args, 2)`, with the arguments. -/
def expectBinary (op : CallOp) (args : List TensorType) :
    Except Error (TensorType × TensorType) :=
  match args with
  | [a, b] => .ok (a, b)
  | _ => .error (arityError op 2 args.length)

/-- `expect_arity(op, args, 3)`, with the arguments. -/
def expectTernary (op : CallOp) (args : List TensorType) :
    Except Error (TensorType × TensorType × TensorType) :=
  match args with
  | [a, b, c] => .ok (a, b, c)
  | _ => .error (arityError op 3 args.length)

/-- Floating-point operands only. -/
def expectFloat (op : CallOp) (elem : ElementType) : Except Error Unit :=
  failIf (!elem.isFloat) s!"{op.name} supports floating-point tensors only"

/-- The verb that agrees with an operation name. -/
def supportVerb (opName : String) : String :=
  if opName.endsWith "s" then "support" else "supports"

/-- Non-boolean operands only. -/
def expectNumericElement (elem : ElementType) (opName : String) :
    Except Error Unit :=
  failIf (!elem.isNumeric) s!"{opName} {supportVerb opName} numeric tensors only"

/-- Ordered operands only: every element type is ordered. -/
def expectOrderedElement (elem : ElementType) (opName : String) :
    Except Error Unit :=
  failIf (!(elem.isNumeric || elem.isBool))
    s!"{opName} supports ordered tensor elements only"

/-- Index operands only. -/
def expectIndexElement (elem : ElementType) (opName : String) :
    Except Error Unit :=
  failIf (!(elem == .i32 || elem == .i64)) s!"{opName} must be i32 or i64"

/-- Boolean operands only. -/
def expectBoolElement (elem : ElementType) (opName : String) :
    Except Error Unit :=
  failIf (!elem.isBool) s!"{opName} {supportVerb opName} bool tensors only"

/-! ## Convolution and pooling -/

/-- Spatial extent of a dilated kernel. -/
def effectiveExtent (kernel dilation : ℕ) : ℕ :=
  usizeAdd (usizeMul (kernel - 1) dilation) 1

/-- Spatial extent after padding both ends. -/
def paddedExtent (input low high : ℕ) : ℕ := usizeAdd (usizeAdd input low) high

/-- Number of window positions. -/
def windowCount (padded effective stride : ℕ) : ℕ :=
  usizeAdd ((padded - effective) / stride) 1

/-- Result type of `conv2d`. -/
def conv2dResultType (input kernel : TensorType) (options : Conv2dOptions) :
    Except Error TensorType := do
  failIf (input.rank != 4 || kernel.rank != 4 || input.elem != kernel.elem)
    "conv2d expects NHWC input and HWCF kernel rank-4 tensors with the same element type"
  expectNumericElement input.elem "conv2d"
  failIf (options.groups == 0) "conv2d groups must be non-zero"
  failIf (options.stride.1 == 0 || options.stride.2 == 0 ||
      options.dilation.1 == 0 || options.dilation.2 == 0)
    "conv2d stride and dilation options must be non-zero"
  failIf (kernel.dim 0 == 0 || kernel.dim 1 == 0 || kernel.dim 2 == 0 ||
      kernel.dim 3 == 0)
    "conv2d kernel dimensions must be non-zero"
  let inputChannels := input.dim 3
  let outputChannels := kernel.dim 3
  failIf (inputChannels == 0 || outputChannels == 0)
    "conv2d input and output channels must be non-zero"
  failIf (!(inputChannels % options.groups == 0))
    s!"conv2d input channels must be divisible by groups, got {inputChannels} channels and {options.groups} groups"
  failIf (!(outputChannels % options.groups == 0))
    s!"conv2d output channels must be divisible by groups, got {outputChannels} channels and {options.groups} groups"
  let expectedKernelChannels := inputChannels / options.groups
  failIf (kernel.dim 2 != expectedKernelChannels)
    s!"conv2d kernel input channels must equal input channels / groups, got {kernel.dim 2} and expected {expectedKernelChannels}"
  let effectiveH := effectiveExtent (kernel.dim 0) options.dilation.1
  let effectiveW := effectiveExtent (kernel.dim 1) options.dilation.2
  let paddedH := paddedExtent (input.dim 1) options.padding.top options.padding.bottom
  let paddedW := paddedExtent (input.dim 2) options.padding.left options.padding.right
  failIf (paddedH < effectiveH || paddedW < effectiveW)
    "conv2d effective kernel spatial dimensions must fit inside the padded input"
  return ⟨input.elem,
    [input.dim 0, windowCount paddedH effectiveH options.stride.1,
      windowCount paddedW effectiveW options.stride.2, outputChannels]⟩

/-- Result type shared by the two pooling operations. -/
def pool2dResultType (input : TensorType) (options : Pool2dOptions)
    (opName : String) : Except Error TensorType := do
  failIf (input.rank != 4) s!"{opName} expects an NHWC rank-4 input tensor"
  expectNumericElement input.elem opName
  failIf (options.kernel.1 == 0 || options.kernel.2 == 0)
    s!"{opName} kernel dimensions must be non-zero"
  failIf (options.stride.1 == 0 || options.stride.2 == 0 ||
      options.dilation.1 == 0 || options.dilation.2 == 0)
    s!"{opName} stride and dilation options must be non-zero"
  failIf (input.dim 0 == 0 || input.dim 3 == 0)
    s!"{opName} batch and channel dimensions must be non-zero"
  let effectiveH := effectiveExtent options.kernel.1 options.dilation.1
  let effectiveW := effectiveExtent options.kernel.2 options.dilation.2
  let paddedH := paddedExtent (input.dim 1) options.padding.top options.padding.bottom
  let paddedW := paddedExtent (input.dim 2) options.padding.left options.padding.right
  failIf (paddedH < effectiveH || paddedW < effectiveW)
    s!"{opName} effective kernel spatial dimensions must fit inside the padded input"
  return ⟨input.elem,
    [input.dim 0, windowCount paddedH effectiveH options.stride.1,
      windowCount paddedW effectiveW options.stride.2, input.dim 3]⟩

/-- Result type of `max_pool2d`. -/
def maxPool2dResultType (input : TensorType) (options : Pool2dOptions) :
    Except Error TensorType :=
  pool2dResultType input options "max_pool2d"

/-- Result type of `avg_pool2d`, which checks the element type first. -/
def avgPool2dResultType (input : TensorType) (options : Pool2dOptions) :
    Except Error TensorType := do
  failIf (!input.elem.isFloat) "avg_pool2d expects a floating-point element type"
  pool2dResultType input options "avg_pool2d"

/-! ## Linear algebra -/

/-- Largest rank of a tensor in the user-facing API. -/
def maxTensorRank : ℕ := 6

/-- Operands of one numeric element type. -/
def expectSameNumericElement (lhs rhs : TensorType) (opName : String) :
    Except Error Unit := do
  failIf (lhs.elem != rhs.elem)
    s!"{opName} expects operands with the same element type"
  expectNumericElement lhs.elem opName

/-- Two dimensions agree. -/
def expectMatchingDim (lhs rhs : ℕ) (name : String) : Except Error Unit :=
  failIf (lhs != rhs) s!"{name} must match, got {lhs} and {rhs}"

/-- The axis exists; the text names the operation. -/
def expectAxisOf (input : TensorType) (axis : ℕ) (opName : String) :
    Except Error Unit :=
  if axis < input.rank then .ok ()
  else .error (.msg
    s!"{opName} axis {axis} is out of bounds for rank-{input.rank} tensor {input.shape}")

/-- The two axes of a diagonal: the given ones or the last two. -/
def defaultAxisPair (input : TensorType) (axes : Option (ℕ × ℕ))
    (opName : String) : Except Error (ℕ × ℕ) := do
  failIf (input.rank < 2) s!"{opName} expects a tensor input with rank at least 2"
  let axes := axes.getD (input.rank - 2, input.rank - 1)
  expectAxisOf input axes.1 opName
  expectAxisOf input axes.2 opName
  failIf (axes.1 == axes.2) s!"{opName} axes must be distinct"
  return axes

/-- The shape without two of its axes. -/
def removeAxesShape (input : TensorType) (axis0 axis1 : ℕ) : List ℕ :=
  input.shape.zipIdx.filterMap fun (dim, axis) =>
    if axis != axis0 && axis != axis1 then some dim else none

/-- Result type of `dot`. -/
def dotResultType (lhs rhs : TensorType) : Except Error TensorType := do
  expectSameNumericElement lhs rhs "dot"
  failIf (lhs.rank != 1 || rhs.rank != 1) "dot expects rank-1 vector operands"
  expectMatchingDim (lhs.dim 0) (rhs.dim 0) "dot vector dimensions"
  return ⟨lhs.elem, []⟩

/-- Result type of `vecdot`. -/
def vecdotResultType (lhs rhs : TensorType) (axis : Option ℕ) :
    Except Error TensorType := do
  expectSameNumericElement lhs rhs "vecdot"
  failIf (lhs.rank == 0 || rhs.rank == 0)
    "vecdot expects tensor operands with rank at least 1"
  failIf (lhs.shape != rhs.shape)
    s!"vecdot expects operands with identical shapes, got {lhs.debug} and {rhs.debug}"
  let axis := axis.getD (lhs.rank - 1)
  expectAxisOf lhs axis "vecdot"
  return ⟨lhs.elem, lhs.shape.eraseIdx axis⟩

/-- Result type of `inner`: a scalar operand scales, otherwise the last axes
are contracted. -/
def innerResultType (lhs rhs : TensorType) : Except Error TensorType := do
  expectSameNumericElement lhs rhs "inner"
  if lhs.rank = 0 ∨ rhs.rank = 0 then
    return ⟨lhs.elem, if lhs.rank = 0 then rhs.shape else lhs.shape⟩
  else
    expectMatchingDim (lhs.dim (lhs.rank - 1)) (rhs.dim (rhs.rank - 1))
      "inner contracted dimensions"
    let shape := lhs.shape.take (lhs.rank - 1) ++ rhs.shape.take (rhs.rank - 1)
    failIf (maxTensorRank < shape.length)
      s!"inner result rank {shape.length} exceeds the current Tensor6 limit"
    return ⟨lhs.elem, shape⟩

/-- Result type of `outer`. -/
def outerResultType (lhs rhs : TensorType) : Except Error TensorType := do
  expectSameNumericElement lhs rhs "outer"
  return ⟨lhs.elem, [elementCount lhs, elementCount rhs]⟩

/-- Result type of `trace`. -/
def traceResultType (input : TensorType) (axes : Option (ℕ × ℕ)) :
    Except Error TensorType := do
  expectNumericElement input.elem "trace"
  let (axis0, axis1) ← defaultAxisPair input axes "trace"
  expectMatchingDim (input.dim axis0) (input.dim axis1) "trace diagonal dimensions"
  return ⟨input.elem, removeAxesShape input axis0 axis1⟩

/-- Result type of `diagonal`. -/
def diagonalResultType (input : TensorType) (axes : Option (ℕ × ℕ)) :
    Except Error TensorType := do
  let (axis0, axis1) ← defaultAxisPair input axes "diagonal"
  expectMatchingDim (input.dim axis0) (input.dim axis1) "diagonal dimensions"
  return ⟨input.elem, removeAxesShape input axis0 axis1 ++ [input.dim axis0]⟩

/-- The contracted dimension of the left operand of a matrix product. -/
def matmulLhsK (lhs : TensorType) : ℕ :=
  if lhs.rank = 1 then lhs.dim 0 else lhs.dim (lhs.rank - 1)

/-- The contracted dimension of the right operand of a matrix product. -/
def matmulRhsK (rhs : TensorType) : ℕ :=
  if rhs.rank = 1 then rhs.dim 0 else rhs.dim (rhs.rank - 2)

/-- The batch dimensions of an operand of a matrix product. -/
def matmulBatch (ty : TensorType) : List ℕ :=
  if 2 < ty.rank then ty.shape.take (ty.rank - 2) else []

/-- The matrix dimensions that a product keeps. -/
def matmulMatrixDims (lhs rhs : TensorType) : List ℕ :=
  (if lhs.rank = 1 then [] else [lhs.dim (lhs.rank - 2)]) ++
    (if rhs.rank = 1 then [] else [rhs.dim (rhs.rank - 1)])

/-- Result type of `matmul`. -/
def matmulResultType (lhs rhs : TensorType) : Except Error TensorType := do
  failIf (lhs.elem != rhs.elem) "matmul expects operands with the same element type"
  expectNumericElement lhs.elem "matmul"
  failIf (lhs.rank == 0 || rhs.rank == 0)
    "matmul expects operands with rank at least 1"
  failIf (maxTensorRank < lhs.rank || maxTensorRank < rhs.rank)
    "matmul currently supports ranks 1 through 6"
  failIf (matmulLhsK lhs != matmulRhsK rhs)
    s!"matmul inner dimensions must match, got {matmulLhsK lhs} and {matmulRhsK rhs}"
  match broadcastShapeSlices (matmulBatch lhs) (matmulBatch rhs) with
  | .error message =>
      .error (.msg s!"matmul batch dimensions are not broadcastable: {message}")
  | .ok batch =>
      let shape := batch ++ matmulMatrixDims lhs rhs
      failIf (maxTensorRank < shape.length)
        s!"matmul result rank {shape.length} exceeds the current Tensor6 limit"
      return ⟨lhs.elem, shape⟩

/-! ## Axis lists -/

/-- Loop over a list of axes with the `seen` table: the first axis that is out
of bounds or repeated is reported by `outOfBounds` or `duplicate`. -/
def checkAxes (rank : ℕ) (outOfBounds : ℕ → Error) (duplicate : Error) :
    List ℕ → List ℕ → Except Error Unit
  | _, [] => .ok ()
  | seen, axis :: axes =>
      if rank ≤ axis then .error (outOfBounds axis)
      else if axis ∈ seen then .error duplicate
      else checkAxes rank outOfBounds duplicate (axis :: seen) axes

/-- Distinct axes of the tensor; no axes means all of them. -/
def validateAxisList (input : TensorType) (axes : List ℕ) (opName : String) :
    Except Error Unit :=
  checkAxes input.rank
    (fun axis => .msg
      s!"{opName} axis {axis} is out of bounds for rank-{input.rank} tensor {input.shape}")
    (.msg s!"{opName} axes must not contain duplicates")
    [] (if axes.isEmpty then List.range input.rank else axes)

/-- Axes that permute the tensor's axes. -/
def validateAxisPermutation (input : TensorType) (axes : List ℕ)
    (opName : String) : Except Error Unit := do
  failIf (axes.length != input.rank)
    s!"{opName} expects one axis per input dimension, got rank {input.rank} and axes {axes}"
  let notPermutation : Error :=
    .msg s!"{opName} axes must be a permutation of 0..{input.rank}, got {axes}"
  checkAxes input.rank (fun _ => notPermutation) notPermutation [] axes

/-- `permute` with an explicit target type. -/
def validatePermute (input target : TensorType) (axes : List ℕ) :
    Except Error Unit := do
  failIf (input.elem != target.elem)
    "permute input and output element types must match"
  failIf (axes.length != input.rank || target.rank != input.rank)
    s!"permute expects one axis per input dimension and equal input/output rank, got input rank {input.rank}, output rank {target.rank}, axes {axes}"
  let notPermutation : Error :=
    .msg s!"permute axes must be a permutation of 0..{input.rank}, got {axes}"
  checkAxes input.rank (fun _ => notPermutation) notPermutation [] axes
  let expected := axes.map input.dim
  failIf (expected != target.shape)
    s!"permute target shape {target.shape} does not match input shape {input.shape} with axes {axes}; expected {expected}"

/-- Result type of `permute_dims` and of `transpose` with axes. -/
def permuteDimsResultType (input : TensorType) (axes : List ℕ)
    (opName : String) : Except Error TensorType := do
  validateAxisPermutation input axes opName
  return ⟨input.elem, axes.map input.dim⟩

/-- Result type of `transpose`: no axes reverses the shape. -/
def transposeResultType (input : TensorType) (axes : List ℕ) :
    Except Error TensorType :=
  if axes.isEmpty then .ok ⟨input.elem, input.shape.reverse⟩
  else permuteDimsResultType input axes "transpose"

/-- `shape.swap(axis0, axis1)`. -/
def swapDims (shape : List ℕ) (axis0 axis1 : ℕ) : List ℕ :=
  (shape.set axis0 (shape.getD axis1 0)).set axis1 (shape.getD axis0 0)

/-- Result type of `swapaxes`. -/
def swapaxesResultType (input : TensorType) (axis0 axis1 : ℕ) :
    Except Error TensorType := do
  expectAxis input axis0
  expectAxis input axis1
  return ⟨input.elem, swapDims input.shape axis0 axis1⟩

/-- `axes.remove(source)` followed by `axes.insert(destination, axis)`. -/
def moveaxisAxes (rank source destination : ℕ) : List ℕ :=
  ((List.range rank).eraseIdx source).insertIdx destination source

/-- The permutation that moves one axis. -/
def moveaxisPermutation (rank source destination : ℕ) :
    Except Error (List ℕ) := do
  failIf (rank ≤ source || rank ≤ destination)
    s!"moveaxis source {source} and destination {destination} must be in bounds for rank-{rank} tensor"
  return moveaxisAxes rank source destination

/-- Result type of `moveaxis`. -/
def moveaxisResultType (input : TensorType) (source destination : ℕ) :
    Except Error TensorType := do
  let axes ← moveaxisPermutation input.rank source destination
  return ⟨input.elem, axes.map input.dim⟩

/-! ## Elementwise rules -/

/-- The broadcast of two operands, with the text of a failure under a prefix. -/
def broadcastOr (prefixText : String) (lhs rhs : TensorType) (elem : ElementType) :
    Except Error TensorType :=
  match broadcastShape lhs rhs with
  | .ok shape => .ok ⟨elem, shape⟩
  | .error message => .error (.msg s!"{prefixText}: {message}")

/-- Result type of the arithmetic operators and of every operation typed like
one. -/
def binaryResultType (lhs rhs : TensorType) : Except Error TensorType := do
  expectNumericElement lhs.elem "arithmetic operators"
  expectNumericElement rhs.elem "arithmetic operators"
  failIf (lhs.elem != rhs.elem)
    s!"elementwise operands must have the same element type, got {lhs.debug} and {rhs.debug}"
  broadcastOr "elementwise operands are not broadcast-compatible" lhs rhs lhs.elem

/-- Result type shared by comparisons and equalities. -/
def predicateResultType (lhs rhs : TensorType) (opName : String) :
    Except Error TensorType := do
  failIf (lhs.elem != rhs.elem)
    s!"{opName} operands must have the same element type, got {lhs.debug} and {rhs.debug}"
  broadcastOr s!"{opName} operands are not broadcast-compatible" lhs rhs .bool

/-- Result type of the order comparisons. -/
def comparisonResultType (lhs rhs : TensorType) : Except Error TensorType := do
  expectNumericElement lhs.elem "comparison ops"
  expectNumericElement rhs.elem "comparison ops"
  predicateResultType lhs rhs "comparison"

/-- Result type of `equal` and `not_equal`. -/
def equalityResultType (lhs rhs : TensorType) : Except Error TensorType :=
  predicateResultType lhs rhs "equality"

/-- Result type of the boolean connectives. -/
def logicalResultType (lhs rhs : TensorType) : Except Error TensorType := do
  expectBoolElement lhs.elem "logical ops"
  expectBoolElement rhs.elem "logical ops"
  broadcastOr "logical operands are not broadcast-compatible" lhs rhs .bool

/-- Result type of `where`. -/
def whereResultType (condition lhs rhs : TensorType) : Except Error TensorType := do
  expectBoolElement condition.elem "where condition"
  failIf (lhs.elem != rhs.elem)
    s!"where value operands must have the same element type, got {lhs.debug} and {rhs.debug}"
  let result ←
    broadcastOr "where value operands are not broadcast-compatible" lhs rhs lhs.elem
  broadcastOr "where condition is not broadcast-compatible with values"
    condition result lhs.elem

/-! ## Random generation -/

/-- A random key is a scalar `i64`. -/
def expectRandomKey (key : TensorType) (opName : String) : Except Error Unit :=
  failIf (key.rank != 0 || key.elem != .i64)
    s!"{opName} key must be a rank-0 i64 tensor, got {key.debug}"

/-- The bounds are scalars of the target's element type. -/
def randomBoundsResultType (low high target : TensorType) (opName : String) :
    Except Error Unit := do
  failIf (low.rank != 0 || high.rank != 0) s!"{opName} bounds must be rank-0 tensors"
  failIf (low.elem != target.elem || high.elem != target.elem)
    s!"{opName} bounds must match the target element type {target.elem.debug}, got {low.elem.debug} and {high.elem.debug}"

/-! ## Shape operations -/

/-- The per-dimension loop of `slice`. -/
def checkSliceDims : ℕ → List ((ℕ × ℕ) × ℕ) → Except Error Unit
  | _, [] => .ok ()
  | axis, ((start, size), inputDim) :: rest =>
      if inputDim < usizeAdd start size then
        .error (.msg
          s!"slice dimension {axis} is out of bounds: start {start} + size {size} exceeds input dimension {inputDim}")
      else checkSliceDims (axis + 1) rest

/-- A slice stays inside its input. -/
def validateSlice (input target : TensorType) (starts : List ℕ) :
    Except Error Unit := do
  failIf (input.elem != target.elem) "slice input and output element types must match"
  failIf (input.rank != target.rank || starts.length != input.rank)
    s!"slice expects one start const per dimension and equal input/output rank, got input rank {input.rank}, output rank {target.rank}, starts {starts}"
  checkSliceDims 0 ((starts.zip target.shape).zip input.shape)

/-- Result type of `take`. -/
def takeResultType (input : TensorType) (axis index : ℕ) :
    Except Error TensorType := do
  expectAxis input axis
  failIf (input.dim axis ≤ index)
    s!"take index {index} is out of bounds for axis {axis} with dimension {input.dim axis}"
  return ⟨input.elem, input.shape.eraseIdx axis⟩

/-- Result type of `gather`: the axis is replaced by the index shape. -/
def gatherResultType (input indices target : TensorType) (axis : ℕ) :
    Except Error TensorType := do
  expectAxis input axis
  expectIndexElement indices.elem "gather indices"
  failIf (input.elem != target.elem) "gather input and output element types must match"
  let shape := input.shape.take axis ++ indices.shape ++ input.shape.drop (axis + 1)
  failIf (shape != target.shape)
    s!"gather output shape must be input prefix + index shape + input suffix, got target {target.shape}, expected {shape}"
  return target

/-- The per-dimension loop of `take_along_axis`. -/
def checkTakeAlongDims (axis : ℕ) : ℕ → List (ℕ × ℕ) → Except Error Unit
  | _, [] => .ok ()
  | dimAxis, (inputDim, indexDim) :: rest =>
      if dimAxis ≠ axis ∧ inputDim ≠ indexDim then
        .error (.msg
          s!"take_along_axis dimension {dimAxis} must match outside axis {axis}, got input dimension {inputDim} and index dimension {indexDim}")
      else checkTakeAlongDims axis (dimAxis + 1) rest

/-- Result type of `take_along_axis`. -/
def takeAlongAxisResultType (input indices : TensorType) (axis : ℕ) :
    Except Error TensorType := do
  expectAxis input axis
  expectIndexElement indices.elem "take_along_axis indices"
  failIf (input.rank != indices.rank)
    s!"take_along_axis expects input and indices to have equal rank, got input rank {input.rank} and index rank {indices.rank}"
  checkTakeAlongDims axis 0 (input.shape.zip indices.shape)
  return ⟨input.elem, indices.shape⟩

/-- The shape without its unit dimensions. -/
def withoutSingletons (shape : List ℕ) : List ℕ := shape.filter (· != 1)

/-- A squeeze removes exactly the unit dimensions. -/
def validateSqueeze (input target : TensorType) : Except Error Unit := do
  failIf (input.elem != target.elem) "squeeze input and output element types must match"
  failIf (withoutSingletons input.shape != target.shape)
    s!"squeeze target shape {target.shape} does not match input shape {input.shape} after removing singleton dimensions"

/-- An unsqueeze inserts only unit dimensions. -/
def validateUnsqueeze (input target : TensorType) : Except Error Unit := do
  failIf (input.elem != target.elem)
    "unsqueeze input and output element types must match"
  let targetWithoutSingletons := withoutSingletons target.shape
  let inputWithoutRank1Scalar := if input.shape = [1] then [] else input.shape
  failIf (!(targetWithoutSingletons == input.shape ||
      targetWithoutSingletons == inputWithoutRank1Scalar))
    s!"unsqueeze target shape {target.shape} must insert only singleton dimensions into input shape {input.shape}"

/-- The loop of `concat` over the dimensions of both operands. -/
def concatDims (axis : ℕ) : ℕ → List (ℕ × ℕ) → Except Error (List ℕ)
  | _, [] => .ok []
  | dim, (lhsDim, rhsDim) :: rest => do
      if dim = axis then
        let shape ← concatDims axis (dim + 1) rest
        return usizeAdd lhsDim rhsDim :: shape
      else if lhsDim ≠ rhsDim then
        .error (.msg
          s!"concat dimension {dim} must match outside axis {axis}, got {lhsDim} and {rhsDim}")
      else
        let shape ← concatDims axis (dim + 1) rest
        return lhsDim :: shape

/-- Result type of `concat`. -/
def concatResultType (lhs rhs : TensorType) (axis : ℕ) :
    Except Error TensorType := do
  failIf (lhs.elem != rhs.elem || lhs.rank != rhs.rank)
    "concat expects tensors with the same element type and rank"
  expectAxis lhs axis
  let shape ← concatDims axis 0 (lhs.shape.zip rhs.shape)
  return ⟨lhs.elem, shape⟩

/-- Result type of `stack`. -/
def stackResultType (lhs rhs : TensorType) (axis : ℕ) :
    Except Error TensorType := do
  failIf (lhs != rhs)
    s!"stack expects matching tensor types, got {lhs.debug} and {rhs.debug}"
  failIf (lhs.rank < axis)
    s!"stack axis {axis} is out of bounds for rank-{lhs.rank} tensor"
  return ⟨lhs.elem, lhs.shape.insertIdx axis 2⟩

/-- Result types of `split`, one per section. -/
def splitResultTypes (input : TensorType) (axis : ℕ) (sections : List ℕ) :
    Except Error (List TensorType) := do
  expectAxis input axis
  let total := usizeSum sections
  failIf (total != input.dim axis)
    s!"split sections {sections} sum to {total}, but axis {axis} has dimension {input.dim axis}"
  return sections.map fun size => ⟨input.elem, input.shape.set axis size⟩

/-- Result type of `tile`. -/
def tileResultType (input : TensorType) (multiples : List ℕ) :
    Except Error TensorType := do
  failIf (multiples.length != input.rank)
    s!"tile expects one multiple per input dimension, got rank {input.rank} and multiples {multiples}"
  return ⟨input.elem, input.shape.zipWith usizeMul multiples⟩

/-- Result type of `repeat`. -/
def repeatResultType (input : TensorType) (axis count : ℕ) :
    Except Error TensorType :=
  if axis < input.rank then
    .ok ⟨input.elem, input.shape.set axis (usizeMul (input.dim axis) count)⟩
  else .error (.msg
    s!"repeat axis {axis} is out of bounds for rank-{input.rank} tensor {input.shape}; repeat requires an existing axis")

/-- The per-dimension loop of `pad`. -/
def checkPadDims : ℕ → List ((ℕ × ℕ) × ℕ) → Except Error Unit
  | _, [] => .ok ()
  | axis, ((inputDim, targetDim), low) :: rest =>
      if targetDim < usizeAdd inputDim low then
        .error (.msg
          s!"pad dimension {axis} is out of bounds: input dimension {inputDim} + low padding {low} exceeds output dimension {targetDim}")
      else checkPadDims (axis + 1) rest

/-- A padded tensor holds its input. -/
def validatePad (input target : TensorType) (lows : List ℕ) :
    Except Error Unit := do
  failIf (input.elem != target.elem) "pad input and output element types must match"
  failIf (input.rank != target.rank || lows.length != input.rank)
    s!"pad expects one low-padding const per dimension and equal input/output rank, got input rank {input.rank}, output rank {target.rank}, lows {lows}"
  checkPadDims 0 ((input.shape.zip target.shape).zip lows)

/-- Reshaping keeps the element type and the number of elements. -/
def validateReshape (input target : TensorType) : Except Error Unit := do
  failIf (input.elem != target.elem)
    "reshape input and output element types must match"
  failIf (elementCount input != elementCount target)
    s!"reshape element counts must match, got {elementCount input} and {elementCount target}"

/-- The check of `broadcast`: the shapes must be compatible, which is weaker
than the input broadcasting *to* the target. -/
def validateBroadcast (input target : TensorType) : Except Error Unit := do
  failIf (input.elem != target.elem)
    "broadcast input and output element types must match"
  match broadcastShape input target with
  | .ok _ => .ok ()
  | .error message =>
      .error (.msg s!"broadcast input and output shapes are incompatible: {message}")

/-- The check of `full_like`. -/
def validateFullLike (input fill : TensorType) : Except Error Unit := do
  failIf (fill.rank != 0) s!"full_like fill value must be rank-0, got {fill.debug}"
  failIf (input.elem != fill.elem)
    s!"full_like input and fill element types must match, got {input.debug} and {fill.debug}"

/-! ## Static creation targets -/

/-- A numeric vector. -/
def validateStaticVectorTarget (target : TensorType) (opName : String) :
    Except Error Unit := do
  failIf (!target.elem.isNumeric) s!"{opName} target element type must be numeric"
  failIf (target.rank != 1)
    s!"{opName} target must be rank-1, got rank-{target.rank} shape {target.shape}"

/-- A square matrix. -/
def validateStaticEyeTarget (target : TensorType) : Except Error Unit := do
  failIf (target.rank != 2)
    s!"eye target must be rank-2, got rank-{target.rank} shape {target.shape}"
  failIf (target.dim 0 != target.dim 1)
    s!"eye target matrix must be square, got shape {target.shape}"

/-- A 32- or 64-bit floating-point tensor. -/
def validateRandomUniformTarget (target : TensorType) (opName : String) :
    Except Error Unit :=
  failIf (!(target.elem == .f32 || target.elem == .f64))
    s!"{opName} target element type must be f32 or f64"

/-- An integer tensor. -/
def validateRandomIntTarget (target : TensorType) (opName : String) :
    Except Error Unit :=
  failIf (!(target.elem == .i32 || target.elem == .i64))
    s!"{opName} target element type must be i32 or i64"

/-- The target check of a static creation operation. -/
def validateStaticCreationTarget : CallOp → Except Error Unit
  | .arange target => validateStaticVectorTarget target "arange"
  | .linspace target => validateStaticVectorTarget target "linspace"
  | .eye target => validateStaticEyeTarget target
  | .staticRandomUniform target _ =>
      validateRandomUniformTarget target "static_random_uniform"
  | .staticRandomInt target _ => validateRandomIntTarget target "static_random_int"
  | _ => .ok ()

/-! ## The table of rules -/

/-- Result types of an operation other than a graph call, from the types of its
arguments. -/
def inferCallResults (op : CallOp) (args : List TensorType) :
    Except Error (List TensorType) :=
  match op with
  | .split axis sections => do
      let input ← expectUnary op args
      splitResultTypes input axis sections
  | .abs => do
      let ty ← expectUnary op args
      expectNumericElement ty.elem "abs"
      return [ty]
  | .all axis | .any axis => do
      let input ← expectUnary op args
      expectBoolElement input.elem "bool reductions"
      return [← reductionOutputType input axis]
  | .argmax axis | .argmin axis => do
      let input ← expectUnary op args
      expectOrderedElement input.elem op.name
      expectNonEmptyReduction input axis op.name
      let output ← reductionOutputType input axis
      return [{ output with elem := .i64 }]
  | .detach => do
      return [← expectUnary op args]
  | .isNan => do
      let ty ← expectUnary op args
      expectFloat op ty.elem
      return [⟨.bool, ty.shape⟩]
  | .ceil | .cos | .exp | .exp2 | .expM1 | .floor | .log | .log1P | .log2 | .log10
  | .relu | .rint | .round | .sigmoid | .sin | .sqrt | .tan | .tanh => do
      let ty ← expectUnary op args
      expectFloat op ty.elem
      return [ty]
  | .reciprocal | .square => do
      let ty ← expectUnary op args
      expectNumericElement ty.elem "elementwise math ops"
      return [ty]
  | .greater | .greaterEqual | .less | .lessEqual => do
      let (lhs, rhs) ← expectBinary op args
      return [← comparisonResultType lhs rhs]
  | .gather target axis => do
      let (input, indices) ← expectBinary op args
      return [← gatherResultType input indices target axis]
  | .equal | .notEqual => do
      let (lhs, rhs) ← expectBinary op args
      return [← equalityResultType lhs rhs]
  | .eye target => do
      expectNullary op args
      validateStaticCreationTarget op
      return [target]
  | .fullLike => do
      let (input, fill) ← expectBinary op args
      validateFullLike input fill
      return [input]
  | .logicalAnd | .logicalOr | .logicalXor => do
      let (lhs, rhs) ← expectBinary op args
      return [← logicalResultType lhs rhs]
  | .logicalNot => do
      let ty ← expectUnary op args
      expectBoolElement ty.elem "logical_not"
      return [ty]
  | .minimum | .maximum => do
      let (lhs, rhs) ← expectBinary op args
      expectNumericElement lhs.elem "min/max ops"
      expectNumericElement rhs.elem "min/max ops"
      return [← binaryResultType lhs rhs]
  | .max axis | .min axis => do
      let input ← expectUnary op args
      expectOrderedElement input.elem op.name
      expectNonEmptyReduction input axis op.name
      return [← reductionOutputType input axis]
  | .clip => do
      let (value, low, high) ← expectTernary op args
      expectNumericElement value.elem "clip"
      expectNumericElement low.elem "clip"
      expectNumericElement high.elem "clip"
      let value ← binaryResultType value low
      return [← binaryResultType value high]
  | .pow => do
      let (lhs, rhs) ← expectBinary op args
      expectFloat op lhs.elem
      expectFloat op rhs.elem
      return [← binaryResultType lhs rhs]
  | .concat axis => do
      let (lhs, rhs) ← expectBinary op args
      return [← concatResultType lhs rhs axis]
  | .flip axes => do
      let input ← expectUnary op args
      validateAxisList input axes "flip"
      return [input]
  | .moveAxis source destination => do
      let input ← expectUnary op args
      return [← moveaxisResultType input source destination]
  | .pad target lows => do
      let input ← expectUnary op args
      validatePad input target lows
      return [target]
  | .softmax axis => do
      let ty ← expectUnary op args
      expectFloat op ty.elem
      failIf (ty.rank == 0) "softmax expects a tensor input"
      expectNonEmptyReduction ty axis "softmax"
      return [ty]
  | .transpose axes => do
      let input ← expectUnary op args
      return [← transposeResultType input axes]
  | .permute target axes => do
      let input ← expectUnary op args
      validatePermute input target axes
      return [target]
  | .permuteDims axes => do
      let input ← expectUnary op args
      return [← permuteDimsResultType input axes "permute_dims"]
  | .repeat_ axis count => do
      let input ← expectUnary op args
      return [← repeatResultType input axis count]
  | .reshape target => do
      let input ← expectUnary op args
      validateReshape input target
      return [target]
  | .roll axis _ => do
      let input ← expectUnary op args
      expectAxis input axis
      return [input]
  | .broadcast target => do
      let input ← expectUnary op args
      validateBroadcast input target
      return [target]
  | .slice target starts => do
      let input ← expectUnary op args
      validateSlice input target starts
      return [target]
  | .squeeze target => do
      let input ← expectUnary op args
      validateSqueeze input target
      return [target]
  | .stack axis => do
      let (lhs, rhs) ← expectBinary op args
      return [← stackResultType lhs rhs axis]
  | .swapAxes axis0 axis1 => do
      let input ← expectUnary op args
      return [← swapaxesResultType input axis0 axis1]
  | .prod axis => do
      let input ← expectUnary op args
      expectNumericElement input.elem "prod"
      return [← reductionOutputType input axis]
  | .ptp axis => do
      let input ← expectUnary op args
      expectNumericElement input.elem "ptp"
      expectNonEmptyReduction input axis "ptp"
      return [← reductionOutputType input axis]
  | .std axis | .var axis => do
      let input ← expectUnary op args
      expectFloat op input.elem
      expectNonEmptyReduction input axis op.name
      return [← reductionOutputType input axis]
  | .sum axis => do
      let input ← expectUnary op args
      expectNumericElement input.elem "sum"
      return [← reductionOutputType input axis]
  | .mean axis => do
      let input ← expectUnary op args
      expectFloat op input.elem
      expectNonEmptyReduction input axis "mean"
      return [← reductionOutputType input axis]
  | .take axis index => do
      let input ← expectUnary op args
      return [← takeResultType input axis index]
  | .takeAlongAxis axis => do
      let (input, indices) ← expectBinary op args
      return [← takeAlongAxisResultType input indices axis]
  | .matmul => do
      let (lhs, rhs) ← expectBinary op args
      return [← matmulResultType lhs rhs]
  | .maxPool2d options => do
      let input ← expectUnary op args
      return [← maxPool2dResultType input options]
  | .avgPool2d options => do
      let input ← expectUnary op args
      return [← avgPool2dResultType input options]
  | .conv2d options => do
      let (input, kernel) ← expectBinary op args
      return [← conv2dResultType input kernel options]
  | .tile multiples => do
      let input ← expectUnary op args
      return [← tileResultType input multiples]
  | .diagonal axes => do
      let input ← expectUnary op args
      return [← diagonalResultType input axes]
  | .dot => do
      let (lhs, rhs) ← expectBinary op args
      return [← dotResultType lhs rhs]
  | .inner => do
      let (lhs, rhs) ← expectBinary op args
      return [← innerResultType lhs rhs]
  | .outer => do
      let (lhs, rhs) ← expectBinary op args
      return [← outerResultType lhs rhs]
  | .arange target | .linspace target => do
      validateStaticCreationTarget op
      return [target]
  | .staticRandomUniform target _ | .staticRandomInt target _ => do
      let (low, high) ← expectBinary op args
      validateStaticCreationTarget op
      randomBoundsResultType low high target op.name
      return [target]
  | .randomUniform target => do
      let (key, low, high) ← expectTernary op args
      expectRandomKey key op.name
      failIf (!(target.elem == .f32 || target.elem == .f64))
        "random_uniform target element type must be f32 or f64"
      randomBoundsResultType low high target op.name
      return [target, key]
  | .randomInt target => do
      let (key, low, high) ← expectTernary op args
      expectRandomKey key op.name
      failIf (!(target.elem == .i32 || target.elem == .i64))
        "random_int target element type must be i32 or i64"
      randomBoundsResultType low high target op.name
      return [target, key]
  | .unsqueeze target => do
      let input ← expectUnary op args
      validateUnsqueeze input target
      return [target]
  | .trace axes => do
      let input ← expectUnary op args
      return [← traceResultType input axes]
  | .vecdot axis => do
      let (lhs, rhs) ← expectBinary op args
      return [← vecdotResultType lhs rhs axis]
  | .where_ => do
      let (condition, lhs, rhs) ← expectTernary op args
      return [← whereResultType condition lhs rhs]
  | .onesLike | .zerosLike => do
      return [← expectUnary op args]
  | .graph _ =>
      .error (.msg "graph calls are resolved by the graph type checker")

/-- `Debug` rendering of the operations that can have several results. -/
def CallOp.debug : CallOp → String
  | .split axis sections =>
      "Split \x7b axis: " ++ toString axis ++ ", sections: " ++ toString sections ++
        " \x7d"
  | .randomUniform target => "RandomUniform(" ++ target.debug ++ ")"
  | .randomInt target => "RandomInt(" ++ target.debug ++ ")"
  | .graph name => "Graph(" ++ name.quote ++ ")"
  | op => op.name

/-- Result type of an operation used as a tensor expression. -/
def inferCallResult (op : CallOp) (args : List TensorType) :
    Except Error TensorType := do
  let results ← inferCallResults op args
  match results with
  | [ty] => return ty
  | _ =>
      .error (.msg
        s!"{op.debug} produces {results.length} values and cannot be used as a tensor expression")

end Knok
