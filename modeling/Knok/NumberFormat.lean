import Mathlib
import Knok.Ast

/-!
# Bit patterns of elements

Elements are bit patterns of the width of their type.  Integers are two's
complement, booleans one bit, and floats a sign in front of a magnitude that orders
as an integer; magnitudes above the one of infinity are not numbers.

### Design decisions

* **One scale.**  Every pattern that is a number has an integer on which all
  comparisons of its type are decided (`scale`); the two zeros of a float have the
  same one.
-/

namespace Knok

namespace ElementType

/-- The width of a bit pattern. -/
def width : ElementType → ℕ
  | bool => 1
  | f16 | bf16 => 16
  | f32 | i32 => 32
  | f64 | i64 => 64

/-- The magnitude of infinity; integers and booleans have none. -/
def infinity : ElementType → ℕ
  | f32 => 0x7F800000
  | f64 => 0x7FF0000000000000
  | f16 => 0x7C00
  | bf16 => 0x7F80
  | _ => 0

variable (elem : ElementType)

/-- A pattern without its sign. -/
def magnitude (x : BitVec elem.width) : ℕ := x.toNat % 2 ^ (elem.width - 1)

/-- Not a number. -/
def isNan (x : BitVec elem.width) : Bool :=
  elem.isFloat && decide (elem.infinity < elem.magnitude x)

/-- The place of a number on the scale of its type. -/
def scale (x : BitVec elem.width) : ℤ :=
  if elem.isFloat then if x.msb then -(elem.magnitude x : ℤ) else elem.magnitude x
  else if elem = bool then x.toNat
  else x.toInt

end ElementType

/-- The comparison predicates of `arith.cmpf` and `arith.cmpi`. -/
inductive CmpPredicate where
  | oeq
  | ogt
  | olt
  | eq
  | sgt
  | slt
  | ugt
  | ult
  deriving DecidableEq

/-- A comparison of two patterns; ordered comparisons of floats fail when an operand
is not a number. -/
def CmpPredicate.holds (elem : ElementType) (p : CmpPredicate) (x y : BitVec elem.width) : Bool :=
  match p with
  | .oeq => !elem.isNan x && !elem.isNan y && elem.scale x == elem.scale y
  | .ogt => !elem.isNan x && !elem.isNan y && decide (elem.scale y < elem.scale x)
  | .olt => !elem.isNan x && !elem.isNan y && decide (elem.scale x < elem.scale y)
  | .eq => x == y
  | .sgt => y.slt x
  | .slt => x.slt y
  | .ugt => y.ult x
  | .ult => x.ult y

/-- The number that `min_numeric_literal` denotes: for floats `"-3.40282347E+38"`,
`"-1.7976931348623157E+308"`, `"-65504.0"` and `"-3.38953139E+38"`, which are the
lowest finite numbers. -/
def minNumericLiteral : (elem : ElementType) → BitVec elem.width
  | .bool => BitVec.ofNat 1 0
  | .f32 => BitVec.ofNat 32 0xFF7FFFFF
  | .f64 => BitVec.ofNat 64 0xFFEFFFFFFFFFFFFF
  | .f16 => BitVec.ofNat 16 0xFBFF
  | .bf16 => BitVec.ofNat 16 0xFF7F
  | .i32 => BitVec.ofInt 32 (-2147483648)
  | .i64 => BitVec.ofInt 64 (-9223372036854775808)

/-- The number that `max_numeric_literal` denotes: for floats the greatest finite
number. -/
def maxNumericLiteral : (elem : ElementType) → BitVec elem.width
  | .bool => BitVec.ofNat 1 1
  | .f32 => BitVec.ofNat 32 0x7F7FFFFF
  | .f64 => BitVec.ofNat 64 0x7FEFFFFFFFFFFFFF
  | .f16 => BitVec.ofNat 16 0x7BFF
  | .bf16 => BitVec.ofNat 16 0x7F7F
  | .i32 => BitVec.ofInt 32 2147483647
  | .i64 => BitVec.ofInt 64 9223372036854775807

/-! ## Comparisons on the scale -/

section Scale

variable {elem : ElementType} {x y : BitVec elem.width}

/-- Bit patterns of integers and booleans are told apart on the scale. -/
theorem scale_inj (h : elem.isFloat = false) : elem.scale x = elem.scale y ↔ x = y := by
  cases elem with
  | bool => exact Int.ofNat_inj.trans BitVec.toNat_inj
  | i32 | i64 => exact BitVec.toInt_inj
  | _ => cases h

/-- The seeds are numbers. -/
theorem isNan_minNumericLiteral (elem : ElementType) :
    elem.isNan (minNumericLiteral elem) = false := by
  cases elem <;> decide

theorem isNan_maxNumericLiteral (elem : ElementType) :
    elem.isNan (maxNumericLiteral elem) = false := by
  cases elem <;> decide

/-- No integer and no boolean is below the least literal or above the greatest. -/
theorem scale_literals_of_not_isFloat (h : elem.isFloat = false) :
    elem.scale (minNumericLiteral elem) ≤ elem.scale x ∧
      elem.scale x ≤ elem.scale (maxNumericLiteral elem) := by
  cases elem with
  | bool =>
      have hx : x.toNat < 2 := x.isLt
      have hscale : ElementType.bool.scale x = x.toNat := rfl
      rw [hscale]
      exact ⟨Int.natCast_nonneg _, Int.ofNat_le.mpr (Nat.le_of_lt_succ hx)⟩
  | i32 =>
      have hlow : -2 ^ 31 ≤ x.toInt := BitVec.le_toInt x
      have hhigh : x.toInt < 2 ^ 31 := BitVec.toInt_lt
      have hscale : ElementType.i32.scale x = x.toInt := rfl
      have hmin : ElementType.i32.scale (minNumericLiteral .i32) = -2147483648 := by decide
      have hmax : ElementType.i32.scale (maxNumericLiteral .i32) = 2147483647 := by decide
      omega
  | i64 =>
      have hlow : -2 ^ 63 ≤ x.toInt := BitVec.le_toInt x
      have hhigh : x.toInt < 2 ^ 63 := BitVec.toInt_lt
      have hscale : ElementType.i64.scale x = x.toInt := rfl
      have hmin : ElementType.i64.scale (minNumericLiteral .i64) = -9223372036854775808 := by decide
      have hmax : ElementType.i64.scale (maxNumericLiteral .i64) = 9223372036854775807 := by decide
      omega
  | _ => cases h

end Scale

end Knok
