import Mathlib
import Knok.Ast
import Knok.Arrays.Nested

/-!
# Host tensors

The containers that hold a graph's inputs and outputs on the host.  A tensor is a
row-major vector of elements; its shape is part of its type, and nothing but the
constructors ties the two together.  The seven ranks are separate types, and each
has index formulas and a flattening chain of its own.

### Design decisions

* **One structure.**  The rank-`n` types wrap the same storage, so they are one
  structure indexed by the shape; what the source writes for each rank apart
  (`from_array`, `get`, `get_mut`) stays apart.
* **Panics are values.**  Indexing a vector fails with `TensorFault.outOfBounds`
  where the source panics.
* **Mutable references** are modelled by what is written through them: `getMut`
  takes the new value and returns the tensor after the write.
-/

namespace Knok.Host

open Arrays (Nested InBounds ravel)

variable {T : Type}

/-- A failed tensor operation: an index panic, or `Error::Shape`. -/
inductive TensorFault where
  | outOfBounds (index len : ℕ)
  | shape (expected actual : List ℕ)
  deriving DecidableEq

/-! ## Storage -/

/-- Row-major elements. -/
structure TensorData (T : Type) where
  data : List T
  deriving DecidableEq

namespace TensorData

/-- Storage from row-major elements, whose number must be that of the shape. -/
def fromVec (data : List T) (shape : List ℕ) : Except TensorFault (TensorData T) :=
  let expectedLen := usizeProduct shape
  if data.length ≠ expectedLen then .error (.shape shape [data.length])
  else .ok ⟨data⟩

/-- Storage filled with one value. -/
def filled (value : T) (shape : List ℕ) : TensorData T :=
  ⟨List.replicate (usizeProduct shape) value⟩

/-- `data[index]`. -/
def index (storage : TensorData T) (index : ℕ) : Except TensorFault T :=
  match storage.data[index]? with
  | some value => .ok value
  | none => .error (.outOfBounds index storage.data.length)

/-- A write through `&mut data[index]`. -/
def indexMut (storage : TensorData T) (index : ℕ) (value : T) :
    Except TensorFault (TensorData T) :=
  if index < storage.data.length then .ok ⟨storage.data.set index value⟩
  else .error (.outOfBounds index storage.data.length)

end TensorData

/-! ## Tensors -/

/-- Tensor with statically known shape. -/
structure Tensor (T : Type) (shape : List ℕ) where
  storage : TensorData T
  deriving DecidableEq

/-- Rank-0 scalar tensor containing one element. -/
abbrev Tensor0 (T : Type) := Tensor T []

/-- Rank-1 tensor with statically known length. -/
abbrev Tensor1 (T : Type) (D0 : ℕ) := Tensor T [D0]

/-- Rank-2 tensor with statically known shape. -/
abbrev Tensor2 (T : Type) (D0 D1 : ℕ) := Tensor T [D0, D1]

/-- Rank-3 tensor with statically known shape. -/
abbrev Tensor3 (T : Type) (D0 D1 D2 : ℕ) := Tensor T [D0, D1, D2]

/-- Rank-4 tensor with statically known shape. -/
abbrev Tensor4 (T : Type) (D0 D1 D2 D3 : ℕ) := Tensor T [D0, D1, D2, D3]

/-- Rank-5 tensor with statically known shape. -/
abbrev Tensor5 (T : Type) (D0 D1 D2 D3 D4 : ℕ) := Tensor T [D0, D1, D2, D3, D4]

/-- Rank-6 tensor with statically known shape. -/
abbrev Tensor6 (T : Type) (D0 D1 D2 D3 D4 D5 : ℕ) := Tensor T [D0, D1, D2, D3, D4, D5]

namespace Tensor

variable {shape : List ℕ}

/-- Static tensor shape. -/
def SHAPE (_ : Tensor T shape) : List ℕ := shape

/-- A tensor from row-major data, with its element count validated. -/
def fromVec (data : List T) : Except TensorFault (Tensor T shape) := do
  return ⟨← TensorData.fromVec data shape⟩

/-- A tensor filled with one value. -/
def filled (value : T) : Tensor T shape := ⟨.filled value shape⟩

/-- Row-major tensor storage. -/
def asSlice (t : Tensor T shape) : List T := t.storage.data

/-- A write through the mutable row-major storage. -/
def asMutSlice (t : Tensor T shape) (index : ℕ) (value : T) :
    Except TensorFault (Tensor T shape) := do
  return ⟨← t.storage.indexMut index value⟩

/-- The representation invariant: one element for each position. -/
def WellFormed (t : Tensor T shape) : Prop := t.storage.data.length = shape.prod

end Tensor

/-- `cond.then(|| &data[index])`. -/
def thenIndex (cond : Bool) (storage : TensorData T) (index : ℕ) :
    Except TensorFault (Option T) :=
  if cond then some <$> storage.index index else .ok none

/-- A write through `cond.then(|| &mut data[index])`. -/
def thenIndexMut {shape : List ℕ} (cond : Bool) (t : Tensor T shape) (index : ℕ) (value : T) :
    Except TensorFault (Option (Tensor T shape)) :=
  if cond then (fun storage => some ⟨storage⟩) <$> t.storage.indexMut index value else .ok none

/-! ### Rank 0 -/

namespace Tensor0

def fromScalar (value : T) : Tensor0 T := ⟨⟨[value]⟩⟩

def fromArray (data : Vector T 1) : Tensor0 T := ⟨⟨data.toList⟩⟩

def filled (value : T) : Tensor0 T := ⟨⟨[value]⟩⟩

def get (t : Tensor0 T) : Except TensorFault T := t.storage.index 0

def getMut (t : Tensor0 T) (value : T) : Except TensorFault (Tensor0 T) := do
  return ⟨← t.storage.indexMut 0 value⟩

end Tensor0

/-! ### Rank 1 -/

namespace Tensor1

variable {D0 : ℕ}

def fromArray (data : Vector T D0) : Tensor1 T D0 := ⟨⟨data.toList⟩⟩

def get (t : Tensor1 T D0) (index : ℕ) : Option T := t.storage.data[index]?

def getMut (t : Tensor1 T D0) (index : ℕ) (value : T) : Option (Tensor1 T D0) :=
  if index < t.storage.data.length then some ⟨⟨t.storage.data.set index value⟩⟩ else none

end Tensor1

/-! ### Rank 2 -/

namespace Tensor2

variable {D0 D1 : ℕ}

def fromArray (data : Vector (Vector T D1) D0) : Tensor2 T D0 D1 :=
  ⟨⟨data.toList.flatMap Vector.toList⟩⟩

def get (t : Tensor2 T D0 D1) (row col : ℕ) : Except TensorFault (Option T) :=
  thenIndex (row < D0 && col < D1) t.storage (usizeAdd (usizeMul row D1) col)

def getMut (t : Tensor2 T D0 D1) (row col : ℕ) (value : T) :
    Except TensorFault (Option (Tensor2 T D0 D1)) :=
  thenIndexMut (row < D0 && col < D1) t (usizeAdd (usizeMul row D1) col) value

end Tensor2

/-! ### Rank 3 -/

namespace Tensor3

variable {D0 D1 D2 : ℕ}

def fromArray (data : Vector (Vector (Vector T D2) D1) D0) : Tensor3 T D0 D1 D2 :=
  ⟨⟨(data.toList.flatMap Vector.toList).flatMap Vector.toList⟩⟩

def get (t : Tensor3 T D0 D1 D2) (d0 d1 d2 : ℕ) : Except TensorFault (Option T) :=
  thenIndex (d0 < D0 && d1 < D1 && d2 < D2) t.storage
    (usizeAdd (usizeMul (usizeAdd (usizeMul d0 D1) d1) D2) d2)

def getMut (t : Tensor3 T D0 D1 D2) (d0 d1 d2 : ℕ) (value : T) :
    Except TensorFault (Option (Tensor3 T D0 D1 D2)) :=
  thenIndexMut (d0 < D0 && d1 < D1 && d2 < D2) t
    (usizeAdd (usizeMul (usizeAdd (usizeMul d0 D1) d1) D2) d2) value

end Tensor3

/-! ### Rank 4 -/

namespace Tensor4

variable {D0 D1 D2 D3 : ℕ}

def fromArray (data : Vector (Vector (Vector (Vector T D3) D2) D1) D0) :
    Tensor4 T D0 D1 D2 D3 :=
  ⟨⟨((data.toList.flatMap Vector.toList).flatMap Vector.toList).flatMap Vector.toList⟩⟩

def get (t : Tensor4 T D0 D1 D2 D3) (d0 d1 d2 d3 : ℕ) : Except TensorFault (Option T) :=
  thenIndex (d0 < D0 && d1 < D1 && d2 < D2 && d3 < D3) t.storage
    (usizeAdd (usizeMul (usizeAdd (usizeMul (usizeAdd (usizeMul d0 D1) d1) D2) d2) D3) d3)

def getMut (t : Tensor4 T D0 D1 D2 D3) (d0 d1 d2 d3 : ℕ) (value : T) :
    Except TensorFault (Option (Tensor4 T D0 D1 D2 D3)) :=
  thenIndexMut (d0 < D0 && d1 < D1 && d2 < D2 && d3 < D3) t
    (usizeAdd (usizeMul (usizeAdd (usizeMul (usizeAdd (usizeMul d0 D1) d1) D2) d2) D3) d3) value

end Tensor4

/-! ### Rank 5 -/

namespace Tensor5

variable {D0 D1 D2 D3 D4 : ℕ}

def fromArray (data : Vector (Vector (Vector (Vector (Vector T D4) D3) D2) D1) D0) :
    Tensor5 T D0 D1 D2 D3 D4 :=
  ⟨⟨(((data.toList.flatMap Vector.toList).flatMap Vector.toList).flatMap
    Vector.toList).flatMap Vector.toList⟩⟩

def get (t : Tensor5 T D0 D1 D2 D3 D4) (d0 d1 d2 d3 d4 : ℕ) :
    Except TensorFault (Option T) :=
  thenIndex (d0 < D0 && d1 < D1 && d2 < D2 && d3 < D3 && d4 < D4) t.storage
    (usizeAdd (usizeMul (usizeAdd (usizeMul (usizeAdd (usizeMul (usizeAdd (usizeMul d0 D1) d1)
      D2) d2) D3) d3) D4) d4)

def getMut (t : Tensor5 T D0 D1 D2 D3 D4) (d0 d1 d2 d3 d4 : ℕ) (value : T) :
    Except TensorFault (Option (Tensor5 T D0 D1 D2 D3 D4)) :=
  thenIndexMut (d0 < D0 && d1 < D1 && d2 < D2 && d3 < D3 && d4 < D4) t
    (usizeAdd (usizeMul (usizeAdd (usizeMul (usizeAdd (usizeMul (usizeAdd (usizeMul d0 D1) d1)
      D2) d2) D3) d3) D4) d4) value

end Tensor5

/-! ### Rank 6 -/

namespace Tensor6

variable {D0 D1 D2 D3 D4 D5 : ℕ}

def fromArray (data : Vector (Vector (Vector (Vector (Vector (Vector T D5) D4) D3) D2) D1) D0) :
    Tensor6 T D0 D1 D2 D3 D4 D5 :=
  ⟨⟨((((data.toList.flatMap Vector.toList).flatMap Vector.toList).flatMap
    Vector.toList).flatMap Vector.toList).flatMap Vector.toList⟩⟩

def get (t : Tensor6 T D0 D1 D2 D3 D4 D5) (d0 d1 d2 d3 d4 d5 : ℕ) :
    Except TensorFault (Option T) :=
  thenIndex (d0 < D0 && d1 < D1 && d2 < D2 && d3 < D3 && d4 < D4 && d5 < D5) t.storage
    (usizeAdd (usizeMul (usizeAdd (usizeMul (usizeAdd (usizeMul (usizeAdd (usizeMul (usizeAdd
      (usizeMul d0 D1) d1) D2) d2) D3) d3) D4) d4) D5) d5)

def getMut (t : Tensor6 T D0 D1 D2 D3 D4 D5) (d0 d1 d2 d3 d4 d5 : ℕ) (value : T) :
    Except TensorFault (Option (Tensor6 T D0 D1 D2 D3 D4 D5)) :=
  thenIndexMut (d0 < D0 && d1 < D1 && d2 < D2 && d3 < D3 && d4 < D4 && d5 < D5) t
    (usizeAdd (usizeMul (usizeAdd (usizeMul (usizeAdd (usizeMul (usizeAdd (usizeMul (usizeAdd
      (usizeMul d0 D1) d1) D2) d2) D3) d3) D4) d4) D5) d5) value

end Tensor6

/-! ## The seven ranks together -/

/-- The dimensions of a tensor type, by rank. -/
inductive FixedShape where
  | rank0
  | rank1 (D0 : ℕ)
  | rank2 (D0 D1 : ℕ)
  | rank3 (D0 D1 D2 : ℕ)
  | rank4 (D0 D1 D2 D3 : ℕ)
  | rank5 (D0 D1 D2 D3 D4 : ℕ)
  | rank6 (D0 D1 D2 D3 D4 D5 : ℕ)

namespace FixedShape

/-- The dimensions as a list. -/
def dims : FixedShape → List ℕ
  | rank0 => []
  | rank1 D0 => [D0]
  | rank2 D0 D1 => [D0, D1]
  | rank3 D0 D1 D2 => [D0, D1, D2]
  | rank4 D0 D1 D2 D3 => [D0, D1, D2, D3]
  | rank5 D0 D1 D2 D3 D4 => [D0, D1, D2, D3, D4]
  | rank6 D0 D1 D2 D3 D4 D5 => [D0, D1, D2, D3, D4, D5]

/-- `from_array` of a rank. -/
def fromArray : (s : FixedShape) → Nested T s.dims → Tensor T s.dims
  | rank0, value => Tensor0.fromArray #v[value]
  | rank1 _, data => Tensor1.fromArray data
  | rank2 _ _, data => Tensor2.fromArray data
  | rank3 _ _ _, data => Tensor3.fromArray data
  | rank4 _ _ _ _, data => Tensor4.fromArray data
  | rank5 _ _ _ _ _, data => Tensor5.fromArray data
  | rank6 _ _ _ _ _ _, data => Tensor6.fromArray data

/-- `filled` of a rank. -/
def filled : (s : FixedShape) → T → Tensor T s.dims
  | rank0, value => Tensor0.filled value
  | _, value => Tensor.filled value

/-- `get` of a rank; no other number of indices can be written. -/
def get (s : FixedShape) (t : Tensor T s.dims) (index : List ℕ) :
    Except TensorFault (Option T) :=
  match s, t with
  | rank0, t =>
      match index with
      | [] => some <$> Tensor0.get t
      | _ => .ok none
  | rank1 _, t =>
      match index with
      | [d0] => .ok (Tensor1.get t d0)
      | _ => .ok none
  | rank2 _ _, t =>
      match index with
      | [d0, d1] => Tensor2.get t d0 d1
      | _ => .ok none
  | rank3 _ _ _, t =>
      match index with
      | [d0, d1, d2] => Tensor3.get t d0 d1 d2
      | _ => .ok none
  | rank4 _ _ _ _, t =>
      match index with
      | [d0, d1, d2, d3] => Tensor4.get t d0 d1 d2 d3
      | _ => .ok none
  | rank5 _ _ _ _ _, t =>
      match index with
      | [d0, d1, d2, d3, d4] => Tensor5.get t d0 d1 d2 d3 d4
      | _ => .ok none
  | rank6 _ _ _ _ _ _, t =>
      match index with
      | [d0, d1, d2, d3, d4, d5] => Tensor6.get t d0 d1 d2 d3 d4 d5
      | _ => .ok none

/-- `get_mut` of a rank, and a write through it. -/
def getMut (s : FixedShape) (t : Tensor T s.dims) (index : List ℕ) (value : T) :
    Except TensorFault (Option (Tensor T s.dims)) :=
  match s, t with
  | rank0, t =>
      match index with
      | [] => some <$> Tensor0.getMut t value
      | _ => .ok none
  | rank1 _, t =>
      match index with
      | [d0] => .ok (Tensor1.getMut t d0 value)
      | _ => .ok none
  | rank2 _ _, t =>
      match index with
      | [d0, d1] => Tensor2.getMut t d0 d1 value
      | _ => .ok none
  | rank3 _ _ _, t =>
      match index with
      | [d0, d1, d2] => Tensor3.getMut t d0 d1 d2 value
      | _ => .ok none
  | rank4 _ _ _ _, t =>
      match index with
      | [d0, d1, d2, d3] => Tensor4.getMut t d0 d1 d2 d3 value
      | _ => .ok none
  | rank5 _ _ _ _ _, t =>
      match index with
      | [d0, d1, d2, d3, d4] => Tensor5.getMut t d0 d1 d2 d3 d4 value
      | _ => .ok none
  | rank6 _ _ _ _ _ _, t =>
      match index with
      | [d0, d1, d2, d3, d4, d5] => Tensor6.getMut t d0 d1 d2 d3 d4 d5 value
      | _ => .ok none

end FixedShape

/-! ## Offsets -/

/-- The offset that the index formulas compute after the first index: multiply by
the next dimension, add the next index. -/
def rowMajorOffset (acc : ℕ) : List ℕ → List ℕ → ℕ
  | dim :: shape, i :: index => rowMajorOffset (usizeAdd (usizeMul acc dim) i) shape index
  | _, _ => acc

/-- **The offset of a position is its row-major number**: in bounds, no step of the
formula wraps. -/
theorem rowMajorOffset_eq {shape index : List ℕ} (h : InBounds index shape) :
    ∀ {acc bound : ℕ}, acc < bound → bound * shape.prod < 2 ^ 64 →
      rowMajorOffset acc shape index = acc * shape.prod + ravel shape index := by
  induction h with
  | nil => intro acc bound _ _; simp [rowMajorOffset, ravel]
  | @cons i dim index shape hi hrest ih =>
      intro acc bound hacc hbound
      rw [List.prod_cons, ← Nat.mul_assoc] at hbound
      have hpos : 0 < shape.prod := Nat.zero_lt_of_lt (Arrays.ravel_lt hrest)
      have hstep : acc * dim + i < bound * dim := by
        calc acc * dim + i < acc * dim + dim := Nat.add_lt_add_left hi _
          _ = (acc + 1) * dim := by ring
          _ ≤ bound * dim := Nat.mul_le_mul_right _ hacc
      have hsmall : bound * dim < 2 ^ 64 :=
        Nat.lt_of_le_of_lt (Nat.le_mul_of_pos_right _ hpos) hbound
      have hmul : usizeMul acc dim = acc * dim := usizeMul_of_lt (by omega)
      have hadd : usizeAdd (usizeMul acc dim) i = acc * dim + i := by
        rw [hmul]
        exact usizeAdd_of_lt (by omega)
      rw [rowMajorOffset, hadd, ih hstep hbound, ravel, List.prod_cons]
      ring

/-- From the first index on. -/
theorem rowMajorOffset_first {dim i : ℕ} {shape index : List ℕ}
    (h : InBounds (i :: index) (dim :: shape)) (hsize : (dim :: shape).prod < 2 ^ 64) :
    rowMajorOffset i shape index = ravel (dim :: shape) (i :: index) := by
  obtain ⟨hi, hrest⟩ := List.forall₂_cons.mp h
  exact rowMajorOffset_eq hrest hi hsize

/-! ## Access -/

section Access

variable {shape index : List ℕ} {t : Tensor T shape} {cond : Bool} {offset : ℕ}

/-- A guarded element is the one at the position's row-major number. -/
theorem thenIndex_eq (ht : t.WellFormed) (hcond : cond = true ↔ InBounds index shape)
    (hoffset : InBounds index shape → offset = ravel shape index) :
    thenIndex cond t.storage offset =
      .ok (if InBounds index shape then t.storage.data[ravel shape index]? else none) := by
  unfold thenIndex
  by_cases h : InBounds index shape
  · have hlt : ravel shape index < t.storage.data.length := by
      rw [ht]
      exact Arrays.ravel_lt h
    rw [if_pos (hcond.mpr h), if_pos h, hoffset h, TensorData.index,
      List.getElem?_eq_getElem hlt]
    rfl
  · rw [if_neg (mt hcond.mp h), if_neg h]

/-- A guarded write is a write at the position's row-major number. -/
theorem thenIndexMut_eq (ht : t.WellFormed) (hcond : cond = true ↔ InBounds index shape)
    (hoffset : InBounds index shape → offset = ravel shape index) (value : T) :
    thenIndexMut cond t offset value =
      .ok (if InBounds index shape then some ⟨⟨t.storage.data.set (ravel shape index) value⟩⟩
        else none) := by
  unfold thenIndexMut
  by_cases h : InBounds index shape
  · have hlt : ravel shape index < t.storage.data.length := by
      rw [ht]
      exact Arrays.ravel_lt h
    rw [if_pos (hcond.mpr h), if_pos h, hoffset h, TensorData.indexMut, if_pos hlt]
    rfl
  · rw [if_neg (mt hcond.mp h), if_neg h]

end Access

namespace FixedShape

/-- No number of indices but the rank can be in bounds. -/
theorem outside_of_length_ne {s : FixedShape} {index : List ℕ}
    (h : index.length ≠ s.dims.length) {α : Type} (found : Option α) :
    (if InBounds index s.dims then found else none) = none :=
  if_neg fun hin => h (Arrays.InBounds.length_eq hin)

theorem get_of_length_ne {s : FixedShape} {index : List ℕ}
    (h : index.length ≠ s.dims.length) (t : Tensor T s.dims) : s.get t index = .ok none := by
  match s, index, h with
  | rank0, _ :: _, _ => rfl
  | rank0, [], h => exact absurd rfl h
  | rank1 _, [], _ | rank1 _, _ :: _ :: _, _ => rfl
  | rank1 _, [_], h => exact absurd rfl h
  | rank2 _ _, [], _ | rank2 _ _, [_], _ | rank2 _ _, _ :: _ :: _ :: _, _ => rfl
  | rank2 _ _, [_, _], h => exact absurd rfl h
  | rank3 _ _ _, [], _ | rank3 _ _ _, [_], _ | rank3 _ _ _, [_, _], _
  | rank3 _ _ _, _ :: _ :: _ :: _ :: _, _ => rfl
  | rank3 _ _ _, [_, _, _], h => exact absurd rfl h
  | rank4 _ _ _ _, [], _ | rank4 _ _ _ _, [_], _ | rank4 _ _ _ _, [_, _], _
  | rank4 _ _ _ _, [_, _, _], _ | rank4 _ _ _ _, _ :: _ :: _ :: _ :: _ :: _, _ => rfl
  | rank4 _ _ _ _, [_, _, _, _], h => exact absurd rfl h
  | rank5 _ _ _ _ _, [], _ | rank5 _ _ _ _ _, [_], _ | rank5 _ _ _ _ _, [_, _], _
  | rank5 _ _ _ _ _, [_, _, _], _ | rank5 _ _ _ _ _, [_, _, _, _], _
  | rank5 _ _ _ _ _, _ :: _ :: _ :: _ :: _ :: _ :: _, _ => rfl
  | rank5 _ _ _ _ _, [_, _, _, _, _], h => exact absurd rfl h
  | rank6 _ _ _ _ _ _, [], _ | rank6 _ _ _ _ _ _, [_], _ | rank6 _ _ _ _ _ _, [_, _], _
  | rank6 _ _ _ _ _ _, [_, _, _], _ | rank6 _ _ _ _ _ _, [_, _, _, _], _
  | rank6 _ _ _ _ _ _, [_, _, _, _, _], _
  | rank6 _ _ _ _ _ _, _ :: _ :: _ :: _ :: _ :: _ :: _ :: _, _ => rfl
  | rank6 _ _ _ _ _ _, [_, _, _, _, _, _], h => exact absurd rfl h

theorem getMut_of_length_ne {s : FixedShape} {index : List ℕ}
    (h : index.length ≠ s.dims.length) (t : Tensor T s.dims) (value : T) :
    s.getMut t index value = .ok none := by
  match s, index, h with
  | rank0, _ :: _, _ => rfl
  | rank0, [], h => exact absurd rfl h
  | rank1 _, [], _ | rank1 _, _ :: _ :: _, _ => rfl
  | rank1 _, [_], h => exact absurd rfl h
  | rank2 _ _, [], _ | rank2 _ _, [_], _ | rank2 _ _, _ :: _ :: _ :: _, _ => rfl
  | rank2 _ _, [_, _], h => exact absurd rfl h
  | rank3 _ _ _, [], _ | rank3 _ _ _, [_], _ | rank3 _ _ _, [_, _], _
  | rank3 _ _ _, _ :: _ :: _ :: _ :: _, _ => rfl
  | rank3 _ _ _, [_, _, _], h => exact absurd rfl h
  | rank4 _ _ _ _, [], _ | rank4 _ _ _ _, [_], _ | rank4 _ _ _ _, [_, _], _
  | rank4 _ _ _ _, [_, _, _], _ | rank4 _ _ _ _, _ :: _ :: _ :: _ :: _ :: _, _ => rfl
  | rank4 _ _ _ _, [_, _, _, _], h => exact absurd rfl h
  | rank5 _ _ _ _ _, [], _ | rank5 _ _ _ _ _, [_], _ | rank5 _ _ _ _ _, [_, _], _
  | rank5 _ _ _ _ _, [_, _, _], _ | rank5 _ _ _ _ _, [_, _, _, _], _
  | rank5 _ _ _ _ _, _ :: _ :: _ :: _ :: _ :: _ :: _, _ => rfl
  | rank5 _ _ _ _ _, [_, _, _, _, _], h => exact absurd rfl h
  | rank6 _ _ _ _ _ _, [], _ | rank6 _ _ _ _ _ _, [_], _ | rank6 _ _ _ _ _ _, [_, _], _
  | rank6 _ _ _ _ _ _, [_, _, _], _ | rank6 _ _ _ _ _ _, [_, _, _, _], _
  | rank6 _ _ _ _ _ _, [_, _, _, _, _], _
  | rank6 _ _ _ _ _ _, _ :: _ :: _ :: _ :: _ :: _ :: _ :: _, _ => rfl
  | rank6 _ _ _ _ _ _, [_, _, _, _, _, _], h => exact absurd rfl h

/-- A write to a scalar. -/
theorem tensor0_getMut_eq {t : Tensor0 T} (ht : t.WellFormed) (value : T) :
    some <$> Tensor0.getMut t value =
      .ok (some (⟨⟨t.storage.data.set 0 value⟩⟩ : Tensor0 T)) := by
  have hlen : 0 < t.storage.data.length := by
    rw [ht]
    exact Nat.one_pos
  rw [Tensor0.getMut, TensorData.indexMut, if_pos hlen]
  rfl

/-- A vector looks its one index up. -/
theorem tensor1_get_eq {D0 : ℕ} {t : Tensor1 T D0} (ht : t.WellFormed) (d0 : ℕ) :
    t.get d0 =
      if InBounds [d0] [D0] then t.storage.data[ravel [D0] [d0]]? else none := by
  have hlen : t.storage.data.length = D0 := by simpa [Tensor.WellFormed] using ht
  by_cases hin : d0 < D0 <;> simp [Tensor1.get, InBounds, ravel, hin, hlen]

theorem tensor1_getMut_eq {D0 : ℕ} {t : Tensor1 T D0} (ht : t.WellFormed) (d0 : ℕ) (value : T) :
    t.getMut d0 value =
      if InBounds [d0] [D0] then some ⟨⟨t.storage.data.set (ravel [D0] [d0]) value⟩⟩
      else none := by
  have hlen : t.storage.data.length = D0 := by simpa [Tensor.WellFormed] using ht
  by_cases hin : d0 < D0 <;> simp [Tensor1.getMut, InBounds, ravel, hin, hlen]

/-- **What `get` returns**, for every rank: the element at the position's row-major
number in bounds, nothing elsewhere, and never a panic. -/
theorem get_eq (s : FixedShape) (hsize : s.dims.prod < 2 ^ 64) {t : Tensor T s.dims}
    (ht : t.WellFormed) (index : List ℕ) :
    s.get t index =
      .ok (if InBounds index s.dims then t.storage.data[ravel s.dims index]? else none) := by
  by_cases hlen : index.length = s.dims.length
  · match s, index, hlen with
    | rank0, [], _ =>
        exact @thenIndex_eq T [] [] t true 0 ht (by simp [InBounds]) fun _ => rfl
    | rank1 D0, [d0], _ =>
        exact congrArg Except.ok (tensor1_get_eq ht d0)
    | rank2 D0 D1, [d0, d1], _ =>
        exact thenIndex_eq ht (by simp [InBounds]) fun h => rowMajorOffset_first h hsize
    | rank3 D0 D1 D2, [d0, d1, d2], _ =>
        exact thenIndex_eq ht (by simp [InBounds, and_assoc]) fun h => rowMajorOffset_first h hsize
    | rank4 D0 D1 D2 D3, [d0, d1, d2, d3], _ =>
        exact thenIndex_eq ht (by simp [InBounds, and_assoc]) fun h => rowMajorOffset_first h hsize
    | rank5 D0 D1 D2 D3 D4, [d0, d1, d2, d3, d4], _ =>
        exact thenIndex_eq ht (by simp [InBounds, and_assoc]) fun h => rowMajorOffset_first h hsize
    | rank6 D0 D1 D2 D3 D4 D5, [d0, d1, d2, d3, d4, d5], _ =>
        exact thenIndex_eq ht (by simp [InBounds, and_assoc]) fun h => rowMajorOffset_first h hsize
  · rw [outside_of_length_ne hlen, get_of_length_ne hlen]

/-- **What a write through `get_mut` does**, for every rank. -/
theorem getMut_eq (s : FixedShape) (hsize : s.dims.prod < 2 ^ 64) {t : Tensor T s.dims}
    (ht : t.WellFormed) (index : List ℕ) (value : T) :
    s.getMut t index value =
      .ok (if InBounds index s.dims then
        some ⟨⟨t.storage.data.set (ravel s.dims index) value⟩⟩ else none) := by
  by_cases hlen : index.length = s.dims.length
  · match s, index, hlen with
    | rank0, [], _ =>
        exact tensor0_getMut_eq ht value
    | rank1 D0, [d0], _ =>
        exact congrArg Except.ok (tensor1_getMut_eq ht d0 value)
    | rank2 D0 D1, [d0, d1], _ =>
        exact @thenIndexMut_eq T [D0, D1] [d0, d1] t _ _ ht
          (by simp [InBounds]) (fun h => rowMajorOffset_first h hsize) value
    | rank3 D0 D1 D2, [d0, d1, d2], _ =>
        exact @thenIndexMut_eq T [D0, D1, D2] [d0, d1, d2] t _ _ ht
          (by simp [InBounds, and_assoc]) (fun h => rowMajorOffset_first h hsize) value
    | rank4 D0 D1 D2 D3, [d0, d1, d2, d3], _ =>
        exact @thenIndexMut_eq T [D0, D1, D2, D3] [d0, d1, d2, d3] t _ _ ht
          (by simp [InBounds, and_assoc]) (fun h => rowMajorOffset_first h hsize) value
    | rank5 D0 D1 D2 D3 D4, [d0, d1, d2, d3, d4], _ =>
        exact @thenIndexMut_eq T [D0, D1, D2, D3, D4] [d0, d1, d2, d3, d4] t _ _ ht
          (by simp [InBounds, and_assoc]) (fun h => rowMajorOffset_first h hsize) value
    | rank6 D0 D1 D2 D3 D4 D5, [d0, d1, d2, d3, d4, d5], _ =>
        exact @thenIndexMut_eq T [D0, D1, D2, D3, D4, D5] [d0, d1, d2, d3, d4, d5] t _ _ ht
          (by simp [InBounds, and_assoc]) (fun h => rowMajorOffset_first h hsize) value
  · rw [outside_of_length_ne hlen, getMut_of_length_ne hlen]

/-- **The flattening chains are row-major**, for every rank. -/
theorem fromArray_data (s : FixedShape) (x : Nested T s.dims) :
    (s.fromArray x).storage.data = Nested.elements s.dims x := by
  open Arrays.Nested in
  match s with
  | rank0 => rfl
  | rank1 D0 => exact (flatMap_elements_nil _).symm
  | rank2 D0 D1 =>
      refine Eq.symm ((flatMap_elements [] _).symm.trans ?_)
      exact flatMap_elements_nil _
  | rank3 D0 D1 D2 =>
      refine Eq.symm ((flatMap_elements [D2] _).symm.trans ((flatMap_elements [] _).symm.trans ?_))
      exact flatMap_elements_nil _
  | rank4 D0 D1 D2 D3 =>
      refine Eq.symm ((flatMap_elements [D2, D3] _).symm.trans ((flatMap_elements [D3] _).symm.trans
        ((flatMap_elements [] _).symm.trans ?_)))
      exact flatMap_elements_nil _
  | rank5 D0 D1 D2 D3 D4 =>
      refine Eq.symm ((flatMap_elements [D2, D3, D4] _).symm.trans
        ((flatMap_elements [D3, D4] _).symm.trans ((flatMap_elements [D4] _).symm.trans
          ((flatMap_elements [] _).symm.trans ?_))))
      exact flatMap_elements_nil _
  | rank6 D0 D1 D2 D3 D4 D5 =>
      refine Eq.symm ((flatMap_elements [D2, D3, D4, D5] _).symm.trans
        ((flatMap_elements [D3, D4, D5] _).symm.trans ((flatMap_elements [D4, D5] _).symm.trans
          ((flatMap_elements [D5] _).symm.trans ((flatMap_elements [] _).symm.trans ?_)))))
      exact flatMap_elements_nil _

end FixedShape

end Knok.Host
