import Mathlib
import Knok.Ops
import Knok.Arrays.Layout

/-!
# Data movement

The operations that only rearrange the elements of their operands, and for each
the law that says which element a result position holds.  The laws are NumPy's;
the lowering and the gradients are both measured against them.

### Design decisions

* **One inversion.**  `MovementTyped` lists what the type rules accept, operation
  by operation, in exact arithmetic; the lowering and the gradients are proved by
  cases on it.
* **Wrapping.**  The rules compute sizes on `usize`.  `SizesFit` says that no
  such size wraps, and under it the rules accept nothing else
  (`movementTyped_of_inferCallResults`).
-/

namespace Knok

open Arrays

/-- The first operand's type. -/
def headType (tys : List TensorType) : TensorType := tys.getD 0 default

/-- The axes of a flip: no axes means all of them. -/
def flipAxes (rank : ℕ) (axes : List ℕ) : List ℕ := if axes.isEmpty then List.range rank else axes

/-- The axes of a transpose: no axes reverses them. -/
def transposeAxes (rank : ℕ) (axes : List ℕ) : List ℕ :=
  if axes.isEmpty then (List.range rank).reverse else axes

/-- The operand and its position that a position of a result holds; nothing for
padding.  `result` counts the results of `split`. -/
def movementLaw (op : CallOp) (tys : List TensorType) (result : ℕ) (i : List ℕ) :
    Option (ℕ × List ℕ) :=
  let input := headType tys
  match op with
  | .slice _ starts => some (0, shiftBy starts i)
  | .split axis sections => some (0, i.set axis ((sections.take result).sum + i.getD axis 0))
  | .take axis index => some (0, i.insertIdx axis index)
  | .concat axis =>
      if i.getD axis 0 < input.dim axis then some (0, i)
      else some (1, i.set axis (i.getD axis 0 - input.dim axis))
  | .stack axis => some (i.getD axis 0, i.eraseIdx axis)
  | .tile _ => some (0, List.zipWith (· % ·) i input.shape)
  | .repeat_ axis count => some (0, i.set axis (i.getD axis 0 / count))
  | .flip axes => some (0, flipPosition (flipAxes input.rank axes) input.shape i)
  | .roll axis shift =>
      some (0, i.set axis
        ((i.getD axis 0 + (input.dim axis - shift % input.dim axis)) % input.dim axis))
  | .pad _ lows => (window lows input.shape i).map fun j => (0, j)
  | .transpose axes => some (0, permutePosition (transposeAxes input.rank axes) i)
  | .permute _ axes | .permuteDims axes => some (0, permutePosition axes i)
  | .swapAxes axis0 axis1 =>
      some (0, permutePosition (swapDims (List.range input.rank) axis0 axis1) i)
  | .moveAxis source destination =>
      some (0, permutePosition (moveaxisAxes input.rank source destination) i)
  | .reshape target => some (0, unravel input.shape (ravel target.shape i))
  | _ => none

/-- The array that a movement computes: the elements the law reads, zero in
between. -/
def movedArray {R : Type*} [Zero R] (op : CallOp) (tys : List TensorType)
    (arrays : List (List ℕ → R)) (result : ℕ) (i : List ℕ) : R :=
  match movementLaw op tys result i with
  | some (operand, j) => arrays.getD operand (fun _ => 0) j
  | none => 0

section Laws

variable {R : Type*} [Zero R] {op : CallOp} {tys : List TensorType} {arrays : List (List ℕ → R)}
  {result operand : ℕ} {i j : List ℕ}

theorem movedArray_of_law (h : movementLaw op tys result i = some (operand, j)) :
    movedArray op tys arrays result i = arrays.getD operand (fun _ => 0) j := by
  rw [movedArray, h]

theorem movedArray_of_padding (h : movementLaw op tys result i = none) :
    movedArray op tys arrays result i = 0 := by
  rw [movedArray, h]

end Laws

/-! ## What the type rules accept -/

/-- Every dimension is a `usize`. -/
def UsizeDims (shape : List ℕ) : Prop := ∀ dim ∈ shape, dim < 2 ^ 64

instance (shape : List ℕ) : Decidable (UsizeDims shape) :=
  inferInstanceAs (Decidable (∀ dim ∈ shape, dim < 2 ^ 64))

theorem UsizeDims.getD_lt {shape : List ℕ} (h : UsizeDims shape) (axis : ℕ) :
    shape.getD axis 0 < 2 ^ 64 := by
  rcases Nat.lt_or_ge axis shape.length with hlt | hge
  · rw [List.getD_eq_getElem _ _ hlt]
    exact h _ (List.getElem_mem hlt)
  · rw [getD_eq_zero_of_le hge]
    norm_num

theorem UsizeDims.set {shape : List ℕ} (h : UsizeDims shape) (axis : ℕ) {size : ℕ}
    (hsize : size < 2 ^ 64) : UsizeDims (shape.set axis size) := by
  intro dim hdim
  rcases List.mem_or_eq_of_mem_set hdim with hmem | rfl
  · exact h dim hmem
  · exact hsize

/-- The end of a window of an array. -/
theorem UsizeDims.window_lt {offsets sizes shape : List ℕ} (h : UsizeDims shape)
    (hfits : WindowFits offsets sizes shape) {axis : ℕ} (haxis : axis < shape.length) :
    offsets.getD axis 0 + sizes.getD axis 0 < 2 ^ 64 :=
  (hfits.2.2 axis haxis).trans_lt (h.getD_lt axis)

/-- The operations that move data. -/
def CallOp.movesData : CallOp → Bool
  | .slice _ _ | .split _ _ | .take _ _ | .concat _ | .stack _ | .tile _ | .repeat_ _ _
  | .flip _ | .roll _ _ | .pad _ _ | .transpose _ | .permute _ _ | .permuteDims _
  | .swapAxes _ _ | .moveAxis _ _ | .reshape _ => true
  | _ => false

/-- No size that the type rule computes wraps. -/
def SizesFit (op : CallOp) (tys : List TensorType) : Prop :=
  let input := headType tys
  match op with
  | .slice target starts =>
      ∀ axis < target.rank, starts.getD axis 0 + target.dim axis < 2 ^ 64
  | .split _ sections => sections.sum < 2 ^ 64
  | .concat axis => input.dim axis + (tys.getD 1 default).dim axis < 2 ^ 64
  | .tile multiples => ∀ axis < input.rank, input.dim axis * multiples.getD axis 0 < 2 ^ 64
  | .repeat_ axis count => input.dim axis * count < 2 ^ 64
  | .pad target lows => ∀ axis < target.rank, input.dim axis + lows.getD axis 0 < 2 ^ 64
  | .reshape target => input.shape.prod < 2 ^ 64 ∧ target.shape.prod < 2 ^ 64
  | _ => True

/-- The typed data movements: what the rules accept when no size wraps. -/
inductive MovementTyped : CallOp → List TensorType → List TensorType → Prop
  | slice {elem : ElementType} {shape size starts : List ℕ} (hfits : WindowFits starts size shape) :
      MovementTyped (.slice ⟨elem, size⟩ starts) [⟨elem, shape⟩] [⟨elem, size⟩]
  | split {elem : ElementType} {shape sections : List ℕ} {axis : ℕ} (haxis : axis < shape.length)
      (hsum : sections.sum = shape.getD axis 0) :
      MovementTyped (.split axis sections) [⟨elem, shape⟩]
        (sections.map fun size => ⟨elem, shape.set axis size⟩)
  | take {elem : ElementType} {shape : List ℕ} {axis index : ℕ} (haxis : axis < shape.length)
      (hindex : index < shape.getD axis 0) :
      MovementTyped (.take axis index) [⟨elem, shape⟩] [⟨elem, shape.eraseIdx axis⟩]
  | concat {elem : ElementType} {shape : List ℕ} {axis size : ℕ} (haxis : axis < shape.length) :
      MovementTyped (.concat axis) [⟨elem, shape⟩, ⟨elem, shape.set axis size⟩]
        [⟨elem, shape.set axis (shape.getD axis 0 + size)⟩]
  | stack {elem : ElementType} {shape : List ℕ} {axis : ℕ} (haxis : axis ≤ shape.length) :
      MovementTyped (.stack axis) [⟨elem, shape⟩, ⟨elem, shape⟩]
        [⟨elem, shape.insertIdx axis 2⟩]
  | tile {elem : ElementType} {shape multiples : List ℕ} (hlen : multiples.length = shape.length) :
      MovementTyped (.tile multiples) [⟨elem, shape⟩] [⟨elem, List.zipWith (· * ·) shape multiples⟩]
  | repeat_ {elem : ElementType} {shape : List ℕ} {axis count : ℕ} (haxis : axis < shape.length) :
      MovementTyped (.repeat_ axis count) [⟨elem, shape⟩]
        [⟨elem, shape.set axis (shape.getD axis 0 * count)⟩]
  | flip {elem : ElementType} {shape axes : List ℕ}
      (hnodup : (flipAxes shape.length axes).Nodup)
      (hlt : ∀ axis ∈ flipAxes shape.length axes, axis < shape.length) :
      MovementTyped (.flip axes) [⟨elem, shape⟩] [⟨elem, shape⟩]
  | roll {elem : ElementType} {shape : List ℕ} {axis shift : ℕ} (haxis : axis < shape.length) :
      MovementTyped (.roll axis shift) [⟨elem, shape⟩] [⟨elem, shape⟩]
  | pad {elem : ElementType} {shape lows size : List ℕ} (hfits : WindowFits lows shape size) :
      MovementTyped (.pad ⟨elem, size⟩ lows) [⟨elem, shape⟩] [⟨elem, size⟩]
  | transpose {elem : ElementType} {shape axes : List ℕ}
      (hperm : (transposeAxes shape.length axes).Perm (List.range shape.length)) :
      MovementTyped (.transpose axes) [⟨elem, shape⟩]
        [⟨elem, (transposeAxes shape.length axes).map fun axis => shape.getD axis 0⟩]
  | permute {elem : ElementType} {shape axes : List ℕ}
      (hperm : axes.Perm (List.range shape.length)) :
      MovementTyped (.permute ⟨elem, axes.map fun axis => shape.getD axis 0⟩ axes) [⟨elem, shape⟩]
        [⟨elem, axes.map fun axis => shape.getD axis 0⟩]
  | permuteDims {elem : ElementType} {shape axes : List ℕ}
      (hperm : axes.Perm (List.range shape.length)) :
      MovementTyped (.permuteDims axes) [⟨elem, shape⟩]
        [⟨elem, axes.map fun axis => shape.getD axis 0⟩]
  | swapAxes {elem : ElementType} {shape : List ℕ} {axis0 axis1 : ℕ} (haxis0 : axis0 < shape.length)
      (haxis1 : axis1 < shape.length) :
      MovementTyped (.swapAxes axis0 axis1) [⟨elem, shape⟩] [⟨elem, swapDims shape axis0 axis1⟩]
  | moveAxis {elem : ElementType} {shape : List ℕ} {source destination : ℕ}
      (hsource : source < shape.length) (hdestination : destination < shape.length) :
      MovementTyped (.moveAxis source destination) [⟨elem, shape⟩]
        [⟨elem, (moveaxisAxes shape.length source destination).map fun axis => shape.getD axis 0⟩]
  | reshape {elem : ElementType} {shape size : List ℕ} (hprod : shape.prod = size.prod) :
      MovementTyped (.reshape ⟨elem, size⟩) [⟨elem, shape⟩] [⟨elem, size⟩]

theorem MovementTyped.movesData {op : CallOp} {tys results : List TensorType}
    (h : MovementTyped op tys results) : op.movesData = true := by
  cases h <;> rfl

end Knok
