import Mathlib
import Knok.Arrays.Index

/-!
# Nested arrays

A nested array of shape `[d₀, …, dₙ]` is a vector of `d₀` nested arrays of the
remaining shape.  Its elements in row-major order are what one gets by emptying
the vectors into each other (`elements`); the element at a position stands at the
position's row-major number (`elements_getElem?_ravel`).
-/

namespace Arrays

universe u

/-- A nested array with values of type `α`. -/
def Nested (α : Type u) : List ℕ → Type u
  | [] => α
  | dim :: shape => Vector (Nested α shape) dim

namespace Nested

variable {α : Type u}

/-- The elements in row-major order. -/
def elements : (shape : List ℕ) → Nested α shape → List α
  | [], value => [value]
  | _ :: shape, rows => rows.toList.flatMap (elements shape)

/-- The element at a position, if it is one. -/
def get? : (shape : List ℕ) → Nested α shape → List ℕ → Option α
  | [], value, [] => some value
  | _ :: shape, rows, i :: index => rows.toList[i]?.bind fun row => get? shape row index
  | _, _, _ => none

/-- Emptying the outer vectors first comes to the same. -/
theorem flatMap_elements {dim : ℕ} (shape : List ℕ) (xs : List (Vector (Nested α shape) dim)) :
    (xs.flatMap Vector.toList).flatMap (elements shape) =
      xs.flatMap (fun rows => elements (dim :: shape) rows) :=
  List.flatMap_assoc

theorem flatMap_elements_nil (xs : List α) : xs.flatMap (fun x => elements [] x) = xs :=
  List.flatMap_singleton' xs

theorem length_elements (shape : List ℕ) (x : Nested α shape) :
    (elements shape x).length = shape.prod := by
  induction shape with
  | nil => rfl
  | cons dim shape ih =>
      have hrow : (fun row : Nested α shape => (elements shape row).length) =
          fun _ => shape.prod := by
        funext row
        exact ih row
      rw [elements, List.length_flatMap, hrow, List.map_const', List.sum_replicate, List.prod_cons,
        smul_eq_mul]
      exact congrArg (· * shape.prod) (Vector.length_toList ..)

/-- Blocks of one size: an element of their concatenation is an element of one. -/
theorem getElem?_flatMap_of_length {β : Type u} {f : α → List β} {size : ℕ}
    (hsize : ∀ a, (f a).length = size) {j : ℕ} (hj : j < size) :
    ∀ (xs : List α) (i : ℕ), (xs.flatMap f)[i * size + j]? = xs[i]?.bind fun a => (f a)[j]? := by
  intro xs
  induction xs with
  | nil => simp
  | cons a xs ih =>
      intro i
      rw [List.flatMap_cons]
      cases i with
      | zero =>
          rw [Nat.zero_mul, Nat.zero_add, List.getElem?_append_left (by rw [hsize]; exact hj)]
          rfl
      | succ i =>
          have hskip : (i + 1) * size + j = size + (i * size + j) := by ring
          rw [hskip, List.getElem?_append_right (by rw [hsize]; exact Nat.le_add_right ..), hsize,
            Nat.add_sub_cancel_left, ih i]
          rfl

/-- **The element at a position stands at its row-major number.** -/
theorem elements_getElem?_ravel {index shape : List ℕ} (h : InBounds index shape)
    (x : Nested α shape) : (elements shape x)[ravel shape index]? = get? shape x index := by
  induction h with
  | nil => rfl
  | @cons i dim index shape hi hrest ih =>
      rw [elements, ravel, getElem?_flatMap_of_length (length_elements shape) (ravel_lt hrest)]
      apply Option.bind_congr
      intro row hrow
      exact ih row

/-- There is an element at every position, and nowhere else. -/
theorem isSome_get? {shape : List ℕ} (x : Nested α shape) (index : List ℕ) :
    (get? shape x index).isSome ↔ InBounds index shape := by
  induction shape generalizing index with
  | nil =>
      cases index with
      | nil => exact ⟨fun _ => .nil, fun _ => rfl⟩
      | cons i index => simp [get?, InBounds]
  | cons dim shape ih =>
      cases index with
      | nil => simp [get?, InBounds]
      | cons i index =>
          have hlen : (Vector.toList x).length = dim := Vector.length_toList ..
          rw [get?, InBounds, List.forall₂_cons, ← InBounds]
          by_cases hi : i < dim
          · rw [List.getElem?_eq_getElem (by rw [hlen]; exact hi), Option.bind_some, ih]
            simp [hi]
          · rw [List.getElem?_eq_none (by rw [hlen]; exact not_lt.mp hi)]
            simp [hi]

end Nested

end Arrays
