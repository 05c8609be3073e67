import Mathlib
import Knok.Movement
import Knok.Lowering.Broadcast

/-!
# Lowering data movement

Slices and splits are `tensor.extract_slice`; everything that assembles a tensor
(`concat`, `tile`, `repeat`, `flip`, `roll`) is a chain of `tensor.insert_slice`
into an empty one; `pad` is `tensor.pad`; the permutations of axes are
`linalg.transpose`.

### Design decisions

* **Chains.**  `insertPieces` is the loop of `concat_many`; the operations that
  assemble a tensor differ in how they cut their pieces.
* **Sizes.**  Offsets and sizes are computed with wrapping `usize` arithmetic and
  converted to signed 64-bit attributes.
-/

namespace Knok.Lowering

open Arrays Control

variable {R : Type}

/-- Subtraction on 64-bit `usize`, as compiled for release. -/
def usizeSub (a b : ℕ) : ℕ := (a + usizeSize - b) % usizeSize

theorem usizeSub_of_le {a b : ℕ} (h : b ≤ a) (ha : a < 2 ^ 64) : usizeSub a b = a - b := by
  unfold usizeSub usizeSize
  omega

/-! ## Permutations of axes -/

/-- `linalg.transpose`, unless the axes are in order. -/
def permute (input : Value R) (ty : TensorType) (axes : List ℕ) : Except Error (Value R) :=
  if axes = List.range axes.length then .ok input
  else do
    let empty ← appendTensorEmpty ty
    appendLinalgTranspose input empty ty axes

/-- A permutation whose result type is computed. -/
def permuteDims (input : Value R) (axes : List ℕ) : Except Error (Value R) :=
  permute input ⟨input.ty.elem, axes.map input.ty.dim⟩ axes

/-- `transpose`: no axes reverses them. -/
def transpose (input : Value R) (axes : List ℕ) : Except Error (Value R) :=
  if input.ty.rank ≤ 1 then .ok input
  else if axes.isEmpty then
    permute input ⟨input.ty.elem, input.ty.shape.reverse⟩ (List.range input.ty.rank).reverse
  else permuteDims input axes

/-- `swapaxes`. -/
def swapaxes (input : Value R) (axis0 axis1 : ℕ) : Except Error (Value R) :=
  permuteDims input (swapDims (List.range input.ty.rank) axis0 axis1)

/-- `moveaxis`. -/
def moveaxis (input : Value R) (source destination : ℕ) : Except Error (Value R) :=
  permuteDims input (moveaxisAxes input.ty.rank source destination)

/-! ## Shapes and slices -/

/-- The vector that `reshape` goes through. -/
def flat (input : Value R) : Except Error (Value R) :=
  if input.ty.rank = 1 then .ok input
  else
    appendCollapseShape input ⟨input.ty.elem, [elementCount input.ty]⟩
      (reassociationForRank input.ty.rank)

/-- `reshape`. -/
def reshape (input : Value R) (ty : TensorType) : Except Error (Value R) :=
  if input.ty = ty then .ok input
  else if ty.rank = 0 ∨ input.ty.rank = 0 then splat input ty
  else do
    let flat ← flat input
    if ty.rank = 1 then return flat
    else appendExpandShape flat ty (reassociationForRank ty.rank)

/-- `slice`. -/
def slice (input : Value R) (ty : TensorType) (starts : List ℕ) : Except Error (Value R) :=
  appendTensorExtractSlice input ty starts ty.shape (List.replicate ty.rank 1)

/-- A slice along one axis. -/
def sliceAxis (input : Value R) (axis start size : ℕ) : Except Error (Value R) :=
  slice input ⟨input.ty.elem, input.ty.shape.set axis size⟩
    (axisOffsets input.ty.rank axis start)

/-- The loop of `split`. -/
def splitFrom (input : Value R) (axis : ℕ) : ℕ → List ℕ → Except Error (List (Value R))
  | _, [] => .ok []
  | offset, section_ :: sections => do
      let value ← sliceAxis input axis offset section_
      let values ← splitFrom input axis (usizeAdd offset section_) sections
      return value :: values

/-- `split`. -/
def split (input : Value R) (axis : ℕ) (sections : List ℕ) : Except Error (List (Value R)) :=
  splitFrom input axis 0 sections

/-- `take`. -/
def take (input : Value R) (axis index : ℕ) : Except Error (Value R) := do
  let sliced ← sliceAxis input axis index 1
  let outputTy : TensorType := ⟨sliced.ty.elem, sliced.ty.shape.eraseIdx axis⟩
  if sliced.ty = outputTy then return sliced
  else if outputTy.rank = 0 then reshape sliced outputTy
  else
    appendCollapseShape sliced outputTy
      (collapseReassociationForRemovedAxis sliced.ty.rank axis)

/-! ## Assembling tensors -/

/-- `concat` of two tensors. -/
def concat (lhs rhs : Value R) (axis : ℕ) : Except Error (Value R) := do
  let ty : TensorType :=
    ⟨lhs.ty.elem, lhs.ty.shape.set axis (usizeAdd (lhs.ty.dim axis) (rhs.ty.dim axis))⟩
  let empty ← appendTensorEmpty ty
  let first ← appendTensorInsertSlice lhs empty ty (List.replicate ty.rank 0)
  appendTensorInsertSlice rhs first ty
    (axisOffsets ty.rank axis (usizeSub (ty.dim axis) (rhs.ty.dim axis)))

/-- `stack` of two tensors. -/
def stack (lhs rhs : Value R) (axis : ℕ) : Except Error (Value R) := do
  let unitTy : TensorType := ⟨lhs.ty.elem, lhs.ty.shape.insertIdx axis 1⟩
  let lhs ← appendExpandShape lhs unitTy (expandReassociationForInsertedAxis lhs.ty.rank axis)
  let rhs ← appendExpandShape rhs unitTy (expandReassociationForInsertedAxis rhs.ty.rank axis)
  concat lhs rhs axis

/-- The loop of `concat_many`: each piece is inserted after the previous ones. -/
def insertPieces (outputTy : TensorType) (axis : ℕ) :
    ℕ → List (Value R) → Value R → Except Error (Value R)
  | _, [], acc => .ok acc
  | offset, value :: values, acc => do
      let acc ← appendTensorInsertSlice value acc outputTy
        (axisOffsets outputTy.rank axis offset)
      insertPieces outputTy axis (usizeAdd offset (value.ty.dim axis)) values acc

/-- `concat_many`. -/
def concatMany (values : List (Value R)) (axis : ℕ) : Except Error (Value R) :=
  match values with
  | [] => .error (.msg "internal error: concat_many needs at least one tensor")
  | first :: _ => do
      let outputTy : TensorType := ⟨first.ty.elem,
        first.ty.shape.set axis (usizeSum (values.map (·.ty.dim axis)))⟩
      let empty ← appendTensorEmpty outputTy
      insertPieces outputTy axis 0 values empty

/-- The loop of `tile` over the axes. -/
def tileAxes : ℕ → List ℕ → Value R → Except Error (Value R)
  | _, [], value => .ok value
  | axis, multiple :: multiples, value =>
      if multiple ≤ 1 then tileAxes (axis + 1) multiples value
      else do
        let value ← concatMany (List.replicate multiple value) axis
        tileAxes (axis + 1) multiples value

/-- `tile`. -/
def tile (input : Value R) (multiples : List ℕ) : Except Error (Value R) :=
  if input.ty.rank = 0 then .ok input
  else if 0 ∈ multiples then
    appendTensorEmpty ⟨input.ty.elem, List.zipWith usizeMul input.ty.shape multiples⟩
  else tileAxes 0 multiples input

/-- `repeat`: every slice of size one, `count` times. -/
def repeat_ (input : Value R) (axis count : ℕ) : Except Error (Value R) :=
  if count = 0 ∨ input.ty.dim axis = 0 then
    appendTensorEmpty
      ⟨input.ty.elem, input.ty.shape.set axis (usizeMul (input.ty.dim axis) count)⟩
  else if count = 1 then .ok input
  else do
    let pieces ← (List.range (input.ty.dim axis)).mapM fun index => do
      let unit ← sliceAxis input axis index 1
      concatMany (List.replicate count unit) axis
    concatMany pieces axis

/-- The loop of `flip` over the axes: the slices of size one, last first. -/
def flipLoop : List ℕ → Value R → Except Error (Value R)
  | [], value => .ok value
  | axis :: axes, value =>
      if value.ty.dim axis ≤ 1 then flipLoop axes value
      else do
        let pieces ← (List.range (value.ty.dim axis)).reverse.mapM fun index =>
          sliceAxis value axis index 1
        let value ← concatMany pieces axis
        flipLoop axes value

/-- `flip`. -/
def flip (input : Value R) (axes : List ℕ) : Except Error (Value R) :=
  flipLoop (flipAxes input.ty.rank axes) input

/-- `roll`: the two parts, exchanged. -/
def roll (input : Value R) (axis shift : ℕ) : Except Error (Value R) :=
  let dim := input.ty.dim axis
  if dim ≤ 1 then .ok input
  else
    let offset := shift % dim
    if offset = 0 then .ok input
    else do
      let split := dim - offset
      let high ← sliceAxis input axis split offset
      let low ← sliceAxis input axis 0 split
      concat high low axis

/-- `pad` with zeros. -/
def pad [Zero R] (input : Value R) (ty : TensorType) (lows : List ℕ) : Except Error (Value R) :=
  let highs := List.zipWith usizeSub (List.zipWith usizeSub ty.shape input.ty.shape) lows
  if (∀ low ∈ lows, low = 0) ∧ (∀ high ∈ highs, high = 0) then .ok input
  else appendTensorPad input ty lows highs (.scalar ty.elem (.written 0))

/-- The lowering of the data-movement operations. -/
def lowerMovement [Zero R] (op : CallOp) (args : List (Value R)) :
    Except Error (List (Value R)) :=
  match op, args with
  | .slice target starts, [input] => do return [← slice input target starts]
  | .split axis sections, [input] => split input axis sections
  | .take axis index, [input] => do return [← take input axis index]
  | .concat axis, [lhs, rhs] => do return [← concat lhs rhs axis]
  | .stack axis, [lhs, rhs] => do return [← stack lhs rhs axis]
  | .tile multiples, [input] => do return [← tile input multiples]
  | .repeat_ axis count, [input] => do return [← repeat_ input axis count]
  | .flip axes, [input] => do return [← flip input axes]
  | .roll axis shift, [input] => do return [← roll input axis shift]
  | .pad target lows, [input] => do return [← pad input target lows]
  | .transpose axes, [input] => do return [← transpose input axes]
  | .permute target axes, [input] => do return [← permute input target axes]
  | .permuteDims axes, [input] => do return [← permuteDims input axes]
  | .swapAxes axis0 axis1, [input] => do return [← swapaxes input axis0 axis1]
  | .moveAxis source destination, [input] => do return [← moveaxis input source destination]
  | .reshape target, [input] => do return [← reshape input target]
  | op, _ => .error (.msg s!"{op.name} does not move data")

end Knok.Lowering
