import Mathlib
import Knok.Ops
import Knok.Arrays.Index

/-!
# Lowered values

A lowered value has a type and a kind: a scalar or a tensor.  What it will hold
at run time is modelled next to it, element by element.

### Design decisions

* **Cells.**  A tensor is often assembled: `tensor.empty` has undefined elements,
  and a chain of `tensor.insert_slice` writes them.  A cell therefore says
  whether an element has been written at all and whether it has been written
  twice, so that one statement about cells (`Value.Holds`) covers the values,
  that none is undefined, and that none is written again.
* **Scalars have rank zero**, and **every dimension is below `2 ^ 63`**: the type
  of a tensor is parsed by MLIR before a value has it.  Both invariants are fields
  of `Value`, and the parse is `resultTensor`, the only way to a new tensor.
* **Elements** are of any type; what needs arithmetic says so.
-/

namespace Knok.Lowering

open Arrays

/-- One element of a tensor that may be under construction. -/
inductive Cell (R : Type)
  | unwritten
  | written (x : R)
  | rewritten (x : R)
deriving DecidableEq, Repr

/-- The element, if it has been written. -/
def Cell.value? {R : Type} : Cell R → Option R
  | .unwritten => none
  | .written x | .rewritten x => some x

/-- Writes one element over another. -/
def Cell.write {R : Type} : Cell R → Cell R → Cell R
  | .unwritten, new => new
  | _, .unwritten => .unwritten
  | _, .written x | _, .rewritten x => .rewritten x

@[simp] theorem Cell.unwritten_write {R : Type} (new : Cell R) :
    Cell.unwritten.write new = new := by
  cases new <;> rfl

/-- Scalars and tensors. -/
inductive ValueKind
  | scalar
  | tensor
deriving DecidableEq, Repr

/-! ## Dimensions -/

/-- Dimensions that fit a signed 64-bit attribute, which MLIR parses. -/
def DimsFit (shape : List ℕ) : Prop := ∀ dim ∈ shape, dim < 2 ^ 63

instance (shape : List ℕ) : Decidable (DimsFit shape) :=
  inferInstanceAs (Decidable (∀ dim ∈ shape, dim < 2 ^ 63))

@[simp] theorem dimsFit_nil : DimsFit [] := fun _ h => absurd h List.not_mem_nil

theorem DimsFit.getD_lt {shape : List ℕ} (h : DimsFit shape) (axis : ℕ) :
    shape.getD axis 0 < 2 ^ 63 := by
  rcases Nat.lt_or_ge axis shape.length with hlt | hge
  · rw [List.getD_eq_getElem _ _ hlt]
    exact h _ (List.getElem_mem hlt)
  · rw [getD_eq_zero_of_le hge]
    norm_num

theorem DimsFit.subset {shape shape' : List ℕ} (h : DimsFit shape) (hsub : shape' ⊆ shape) :
    DimsFit shape' :=
  fun dim hdim => h dim (hsub hdim)

theorem DimsFit.eraseIdx {shape : List ℕ} (h : DimsFit shape) (axis : ℕ) :
    DimsFit (shape.eraseIdx axis) :=
  h.subset fun _ => List.mem_of_mem_eraseIdx

theorem DimsFit.map_getD {shape : List ℕ} (h : DimsFit shape) (axes : List ℕ) :
    DimsFit (axes.map fun axis => shape.getD axis 0) := by
  intro dim hdim
  obtain ⟨axis, -, rfl⟩ := List.mem_map.mp hdim
  exact h.getD_lt axis

theorem DimsFit.set {shape : List ℕ} (h : DimsFit shape) (axis : ℕ) {size : ℕ}
    (hsize : size < 2 ^ 63) : DimsFit (shape.set axis size) := by
  intro dim hdim
  rcases List.mem_or_eq_of_mem_set hdim with hmem | rfl
  · exact h dim hmem
  · exact hsize

/-! ## Values -/

/-- A lowered value and the elements it holds at run time. -/
structure Value (R : Type) where
  ty : TensorType
  kind : ValueKind
  cell : List ℕ → Cell R
  shape_of_scalar : kind = .scalar → ty.shape = []
  dims_fit : DimsFit ty.shape

namespace Value

variable {R : Type}

/-- `Value::scalar`. -/
def scalar (elem : ElementType) (x : Cell R) : Value R :=
  ⟨⟨elem, []⟩, .scalar, fun _ => x, fun _ => rfl, dimsFit_nil⟩

/-- `Value::tensor`. -/
def tensor (ty : TensorType) (cell : List ℕ → Cell R) (h : DimsFit ty.shape := by decide) :
    Value R :=
  ⟨ty, .tensor, cell, fun hkind => absurd hkind (by decide), h⟩

@[simp] theorem scalar_ty (elem : ElementType) (x : Cell R) : (scalar elem x).ty = ⟨elem, []⟩ := rfl
@[simp] theorem scalar_kind (elem : ElementType) (x : Cell R) : (scalar elem x).kind = .scalar := rfl
@[simp] theorem scalar_cell (elem : ElementType) (x : Cell R) (i : List ℕ) :
    (scalar elem x).cell i = x := rfl

section Tensor

variable (ty : TensorType) (cell : List ℕ → Cell R) (h : DimsFit ty.shape)

@[simp] theorem tensor_ty : (tensor ty cell h).ty = ty := rfl
@[simp] theorem tensor_kind : (tensor ty cell h).kind = .tensor := rfl
@[simp] theorem tensor_cell : (tensor ty cell h).cell = cell := rfl

end Tensor

/-- Every element of the value is written exactly once and is the array's. -/
def Holds (value : Value R) (x : List ℕ → R) : Prop :=
  ∀ i, InBounds i value.ty.shape → value.cell i = .written (x i)

theorem kind_eq_tensor {value : Value R} (h : value.ty.shape ≠ []) : value.kind = .tensor := by
  cases hkind : value.kind with
  | scalar => exact absurd (value.shape_of_scalar hkind) h
  | tensor => rfl

theorem kind_eq_tensor_of_rank {value : Value R} {axis : ℕ} (h : axis < value.ty.rank) :
    value.kind = .tensor :=
  kind_eq_tensor fun hnil => by
    rw [TensorType.rank, hnil] at h
    exact absurd h (Nat.not_lt_zero _)

end Value

/-! ## New tensors -/

section ResultTensor

variable {R : Type} {ty : TensorType} {cell : List ℕ → Cell R}

/-- The tensor an emitted operation results in.  `mlir_tensor_type` parses its
type: MLIR refuses a dimension from `2 ^ 63` on. -/
def resultTensor (ty : TensorType) (cell : List ℕ → Cell R) : Except Error (Value R) :=
  if h : DimsFit ty.shape then .ok (.tensor ty cell h)
  else .error (.msg s!"failed to parse MLIR tensor type `{ty.mlirType}`")

theorem resultTensor_of (h : DimsFit ty.shape) :
    resultTensor ty cell = .ok (.tensor ty cell h) :=
  dif_pos h

@[simp] theorem resultTensor_eq_ok_iff {value : Value R} :
    resultTensor ty cell = .ok value ↔ ∃ h : DimsFit ty.shape, value = .tensor ty cell h := by
  unfold resultTensor
  split_ifs with h
  · rw [Except.ok.injEq]
    exact ⟨fun heq => ⟨h, heq.symm⟩, fun ⟨_, heq⟩ => heq.symm⟩
  · simp [h]

end ResultTensor

end Knok.Lowering
