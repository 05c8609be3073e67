import Mathlib
import Knok.Lowering.Value
import Knok.Lowering.Shape
import Knok.Arrays.Layout
import Knok.Control.Checked

/-!
# Emitting tensor operations

The `append_*` functions of the lowerer emit one operation each.  Here they
compute what the emitted operation means.

### Design decisions

* **Three sources of failure.**  The lowerer converts sizes and offsets to 64-bit
  signed attributes (`denseI64Attr`), which fails for numbers from `2 ^ 63` on.
  It has MLIR parse the type of every result (`resultTensor`), which fails for
  dimensions from `2 ^ 63` on.  The other checks (`verify`) are those of the
  operation itself: ranks, element types, bounds.  A lowering that succeeds has
  therefore emitted well-formed operations whose reads and writes are in bounds.
* **The first failure is not told from the others**: `resultTensor` comes last here,
  and in the code sometimes before the attributes are converted.
* **Axis numbers** (permutations, dimension lists, reassociations) are lists of
  numbers; being below the length of a vector they always fit an attribute.
* **Reassociations** are lists of groups; the code passes them as text.
-/

namespace Knok.Lowering

open Arrays Control

variable {R : Type}

/-- A check of an operation's verifier. -/
def verify (p : Prop) [Decidable p] (message : String) : Except Error Unit :=
  failIf (!decide p) message

@[simp] theorem verify_eq_ok_iff {p : Prop} [Decidable p] {message : String} {u : Unit} :
    verify p message = .ok u ↔ p := by
  simp [verify]

theorem verify_of {p : Prop} [Decidable p] (h : p) (message : String) :
    verify p message = .ok () :=
  verify_eq_ok_iff.mpr h

/-- `dense_i64_attr`: every number fits a signed 64-bit attribute. -/
def denseI64Attr (values : List ℕ) : Except Error Unit :=
  failIf (values.any (2 ^ 63 ≤ ·)) "out of range integral type conversion attempted"

@[simp] theorem denseI64Attr_eq_ok_iff {values : List ℕ} {u : Unit} :
    denseI64Attr values = .ok u ↔ ∀ n ∈ values, n < 2 ^ 63 := by
  simp [denseI64Attr]

/-! ## Creation and access -/

/-- `tensor.empty`: every element is undefined. -/
def appendTensorEmpty (ty : TensorType) : Except Error (Value R) :=
  resultTensor ty fun _ => .unwritten

theorem appendTensorEmpty_of {ty : TensorType} (h : DimsFit ty.shape) :
    appendTensorEmpty (R := R) ty = .ok (.tensor ty (fun _ => .unwritten) h) :=
  resultTensor_of h

/-- `tensor.extract` at constant indices. -/
def appendTensorExtract (input : Value R) (indices : List ℕ) : Except Error (Value R) := do
  verify (input.kind = .tensor) "tensor.extract operand must be a tensor"
  verify (InBounds indices input.ty.shape) "tensor.extract index is out of bounds"
  return .scalar input.ty.elem (input.cell indices)

/-- `linalg.fill`, or `tensor.from_elements` for a tensor of rank zero. -/
def appendLinalgFill (scalar output : Value R) (ty : TensorType) : Except Error (Value R) := do
  verify (scalar.kind = .scalar ∧ output.kind = .tensor ∧ output.ty = ty ∧
    scalar.ty.elem = ty.elem) "fill expects a scalar and a tensor of its element type"
  resultTensor ty fun _ => scalar.cell []

/-! ## Slices -/

/-- A strided slice stays inside the array. -/
def StridedFits (offsets sizes strides shape : List ℕ) : Prop :=
  offsets.length = shape.length ∧ sizes.length = shape.length ∧ strides.length = shape.length ∧
    ∀ axis < shape.length,
      if sizes.getD axis 0 = 0 then offsets.getD axis 0 ≤ shape.getD axis 0
      else offsets.getD axis 0 + (sizes.getD axis 0 - 1) * strides.getD axis 0 < shape.getD axis 0

instance (offsets sizes strides shape : List ℕ) :
    Decidable (StridedFits offsets sizes strides shape) :=
  inferInstanceAs (Decidable (_ ∧ _ ∧ _ ∧ _))

/-- `tensor.extract_slice`. -/
def appendTensorExtractSlice (input : Value R) (ty : TensorType)
    (offsets sizes strides : List ℕ) : Except Error (Value R) := do
  denseI64Attr offsets
  denseI64Attr sizes
  denseI64Attr strides
  verify (input.kind = .tensor) "tensor.extract_slice operand must be a tensor"
  verify (ty = ⟨input.ty.elem, sizes⟩ ∧ StridedFits offsets sizes strides input.ty.shape)
    "tensor.extract_slice is out of bounds"
  resultTensor ty fun i => input.cell (shiftBy offsets (List.zipWith (· * ·) i strides))

/-- `tensor.insert_slice` with unit strides. -/
def appendTensorInsertSlice (source dest : Value R) (destTy : TensorType)
    (offsets : List ℕ) : Except Error (Value R) := do
  denseI64Attr offsets
  denseI64Attr source.ty.shape
  verify (source.kind = .tensor ∧ dest.kind = .tensor)
    "tensor.insert_slice operands must be tensors"
  verify (dest.ty = destTy ∧ source.ty.elem = destTy.elem ∧
    WindowFits offsets source.ty.shape destTy.shape) "tensor.insert_slice is out of bounds"
  resultTensor destTy fun i =>
    match window offsets source.ty.shape i with
    | some j => (dest.cell i).write (source.cell j)
    | none => dest.cell i

/-- `tensor.pad` with one padding value. -/
def appendTensorPad (input : Value R) (ty : TensorType) (lows highs : List ℕ)
    (padValue : Value R) : Except Error (Value R) := do
  denseI64Attr lows
  denseI64Attr highs
  verify (input.kind = .tensor ∧ padValue.kind = .scalar) "tensor.pad pads a tensor by a scalar"
  verify (ty.elem = input.ty.elem ∧ padValue.ty.elem = ty.elem ∧
    lows.length = input.ty.rank ∧ highs.length = input.ty.rank ∧
    ty.shape = List.zipWith (· + ·) (shiftBy lows input.ty.shape) highs)
    "tensor.pad result type does not match its padding"
  resultTensor ty fun i =>
    match window lows input.ty.shape i with
    | some j => input.cell j
    | none => padValue.cell []

/-! ## Reassociations -/

/-- `tensor.collapse_shape`: the elements in row-major order. -/
def appendCollapseShape (input : Value R) (ty : TensorType) (groups : List (List ℕ)) :
    Except Error (Value R) := do
  verify (input.kind = .tensor) "tensor.collapse_shape operand must be a tensor"
  verify (ty.elem = input.ty.elem ∧ Reassociates groups input.ty.shape ty.shape)
    "tensor.collapse_shape reassociation does not match its types"
  resultTensor ty fun i => input.cell (unravel input.ty.shape (ravel ty.shape i))

/-- `tensor.expand_shape`: the elements in row-major order. -/
def appendExpandShape (input : Value R) (ty : TensorType) (groups : List (List ℕ)) :
    Except Error (Value R) := do
  denseI64Attr ty.shape
  verify (input.kind = .tensor) "tensor.expand_shape operand must be a tensor"
  verify (ty.elem = input.ty.elem ∧ Reassociates groups ty.shape input.ty.shape)
    "tensor.expand_shape reassociation does not match its types"
  resultTensor ty fun i => input.cell (unravel input.ty.shape (ravel ty.shape i))

/-! ## Axes -/

/-- `linalg.transpose`: axis `k` of the result is axis `permutation[k]` of the
input. -/
def appendLinalgTranspose (input output : Value R) (ty : TensorType) (permutation : List ℕ) :
    Except Error (Value R) := do
  verify (input.kind = .tensor ∧ output.kind = .tensor ∧ output.ty = ty)
    "linalg.transpose operands must be tensors"
  verify (permutation.Perm (List.range input.ty.rank) ∧
    ty = ⟨input.ty.elem, permutation.map input.ty.dim⟩)
    "linalg.transpose permutation does not match its types"
  resultTensor ty fun i =>
    input.cell ((List.range input.ty.rank).map fun axis => i.getD (permutation.idxOf axis) 0)

/-- The axes of a broadcast result that the input has. -/
def keptAxes (rank : ℕ) (dimensions : List ℕ) : List ℕ :=
  (List.range rank).filter (· ∉ dimensions)

/-- `linalg.broadcast`: the result repeats the input along `dimensions`. -/
def appendLinalgBroadcast (input output : Value R) (ty : TensorType) (dimensions : List ℕ) :
    Except Error (Value R) := do
  verify (input.kind = .tensor ∧ output.kind = .tensor ∧ output.ty = ty)
    "linalg.broadcast operands must be tensors"
  verify (input.ty.elem = ty.elem ∧ input.ty.rank + dimensions.length = ty.rank ∧
    (∀ axis ∈ dimensions, axis < ty.rank) ∧
    input.ty.shape = (keptAxes ty.rank dimensions).map ty.dim)
    "linalg.broadcast dimensions do not match its types"
  resultTensor ty fun i =>
    input.cell ((keptAxes ty.rank dimensions).map fun axis => i.getD axis 0)

/-! ## What the operations do when their checks pass -/

/-- The dimensions of a joined shape fit when the operands' do. -/
theorem dimsFit_of_broadcastShapeSlices {lhs rhs shape : List ℕ}
    (h : broadcastShapeSlices lhs rhs = .ok shape) (hl : DimsFit lhs) (hr : DimsFit rhs) :
    DimsFit shape := by
  intro dim hdim
  rcases mem_of_broadcastShapeSlices h hdim with hmem | hmem
  · exact hl dim hmem
  · exact hr dim hmem

theorem stridedFits_ones {offsets sizes shape : List ℕ} :
    StridedFits offsets sizes (List.replicate shape.length 1) shape ↔
      WindowFits offsets sizes shape := by
  unfold StridedFits WindowFits
  rw [List.length_replicate]
  constructor
  · rintro ⟨hoffsets, hsizes, -, hfits⟩
    refine ⟨hoffsets, hsizes, fun axis haxis => ?_⟩
    have hfit := hfits axis haxis
    rw [List.getD_replicate _ haxis] at hfit
    split_ifs at hfit <;> omega
  · rintro ⟨hoffsets, hsizes, hfits⟩
    refine ⟨hoffsets, hsizes, rfl, fun axis haxis => ?_⟩
    have hfit := hfits axis haxis
    rw [List.getD_replicate _ haxis]
    split_ifs <;> omega

theorem zipWith_mul_ones {i : List ℕ} {rank : ℕ} (hlen : i.length = rank) :
    List.zipWith (· * ·) i (List.replicate rank 1) = i := by
  subst hlen
  induction i with
  | nil => rfl
  | cons k i ih => rw [List.length_cons, List.replicate_succ, List.zipWith_cons_cons, ih, mul_one]

/-- A slice with unit strides. -/
theorem appendTensorExtractSlice_ones {input : Value R} {sizes offsets : List ℕ}
    {x : List ℕ → R} (hkind : input.kind = .tensor) (hx : input.Holds x)
    (hoffsets : ∀ n ∈ offsets, n < 2 ^ 63) (hsizes : DimsFit sizes)
    (hfits : WindowFits offsets sizes input.ty.shape) :
    ∃ value, appendTensorExtractSlice input ⟨input.ty.elem, sizes⟩ offsets sizes
        (List.replicate sizes.length 1) = .ok value ∧
      value.ty = ⟨input.ty.elem, sizes⟩ ∧ value.Holds fun i => x (shiftBy offsets i) := by
  have hstrides : ∀ n ∈ List.replicate sizes.length 1, n < 2 ^ 63 := by
    intro n hn
    rw [List.eq_of_mem_replicate hn]
    norm_num
  have hlen : sizes.length = input.ty.shape.length := hfits.2.1
  refine ⟨.tensor ⟨input.ty.elem, sizes⟩ (fun i =>
    input.cell (shiftBy offsets (List.zipWith (· * ·) i (List.replicate sizes.length 1)))) hsizes,
    ?_, rfl, fun i hi => ?_⟩
  · simp only [appendTensorExtractSlice, except_bind_eq_ok_iff, denseI64Attr_eq_ok_iff,
      verify_eq_ok_iff, exists_const]
    refine ⟨hoffsets, hsizes, hstrides, hkind, ⟨trivial, ?_⟩, resultTensor_of _⟩
    rw [hlen]
    exact stridedFits_ones.mpr hfits
  · have hilen : i.length = sizes.length := hi.length_eq
    rw [Value.tensor_cell, zipWith_mul_ones hilen]
    exact hx _ (hfits.inBounds hi)

theorem appendCollapseShape_eq {input : Value R} {shape : List ℕ} {groups : List (List ℕ)}
    (hkind : input.kind = .tensor) (hgroups : Reassociates groups input.ty.shape shape)
    (hdims : DimsFit shape) :
    appendCollapseShape input ⟨input.ty.elem, shape⟩ groups =
      .ok (.tensor ⟨input.ty.elem, shape⟩
        (fun i => input.cell (unravel input.ty.shape (ravel shape i))) hdims) := by
  simp only [appendCollapseShape, except_bind_eq_ok_iff, verify_eq_ok_iff, exists_const]
  exact ⟨hkind, ⟨trivial, hgroups⟩, resultTensor_of _⟩

theorem appendLinalgBroadcast_eq {input output : Value R} {ty : TensorType}
    {dimensions : List ℕ} (hkind : input.kind = .tensor) (houtput : output.kind = .tensor)
    (hty : output.ty = ty) (helem : input.ty.elem = ty.elem)
    (hlen : input.ty.rank + dimensions.length = ty.rank)
    (hlt : ∀ axis ∈ dimensions, axis < ty.rank)
    (hkept : input.ty.shape = (keptAxes ty.rank dimensions).map ty.dim) :
    appendLinalgBroadcast input output ty dimensions =
      .ok (.tensor ty (fun i =>
        input.cell ((keptAxes ty.rank dimensions).map fun axis => i.getD axis 0))
        (hty ▸ output.dims_fit)) := by
  simp only [appendLinalgBroadcast, except_bind_eq_ok_iff, verify_eq_ok_iff, exists_const]
  exact ⟨⟨hkind, houtput, hty⟩, ⟨helem, hlen, hlt, hkept⟩, resultTensor_of _⟩

/-- A scalar that holds one element. -/
def IsScalar (value : Value R) (elem : ElementType) (x : R) : Prop :=
  value.kind = .scalar ∧ value.ty.elem = elem ∧ value.cell [] = .written x

theorem appendLinalgFill_eq {scalar output : Value R} {x : R} {ty : TensorType}
    (h : IsScalar scalar ty.elem x) (houtput : output.kind = .tensor) (hty : output.ty = ty) :
    appendLinalgFill scalar output ty =
      .ok (.tensor ty (fun _ => .written x) (hty ▸ output.dims_fit)) := by
  obtain ⟨hkind, helem, hcell⟩ := h
  simp only [appendLinalgFill, except_bind_eq_ok_iff, verify_eq_ok_iff, exists_const, hcell]
  exact ⟨⟨hkind, houtput, hty, helem⟩, resultTensor_of _⟩

/-- Filling a new tensor. -/
theorem appendLinalgFill_empty {scalar : Value R} {x : R} {ty : TensorType}
    (h : IsScalar scalar ty.elem x) (hfit : DimsFit ty.shape) :
    (appendTensorEmpty ty >>= fun empty => appendLinalgFill scalar empty ty) =
      .ok (.tensor ty (fun _ => .written x) hfit) := by
  rw [appendTensorEmpty_of hfit]
  exact appendLinalgFill_eq h rfl rfl

end Knok.Lowering
