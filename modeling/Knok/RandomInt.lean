import Mathlib
import Knok.Random
import Knok.StaticIntegers

/-!
# Random integers

An integer between two bounds is the lower bound plus the remainder of a hash by
the distance of the bounds.  The compiled program computes this with wrapping
operations on words of the target's width; the expansion of literals computes it
on `i128`.  Both stay between the bounds, also where the distance overflows the
signed type, and both compute the same integers.
-/

namespace Knok

open Arrays Control

/-- The tensor of `random_int`, in row-major order. -/
def randomIntTensor {w : ℕ} (target : TensorType) (key : BitVec 64) (low high : BitVec w) :
    List (BitVec w) :=
  randomTensor (randomIntElement low high) target key

/-- A remainder by the distance of two bounds, from the lower one. -/
theorem add_emod_between {low high : ℤ} (h : low < high) (sample : ℕ) :
    low ≤ low + (sample : ℤ) % (high - low) ∧ low + (sample : ℤ) % (high - low) < high := by
  have hnonneg := Int.emod_nonneg (sample : ℤ) (show high - low ≠ 0 by omega)
  have hlt := Int.emod_lt_of_pos (sample : ℤ) (show 0 < high - low by omega)
  omega

section Element

variable {w : ℕ} {low high : BitVec w}

/-- The wrapping difference of the bounds is their distance. -/
theorem toNat_sub_of_toInt_lt (h : low.toInt < high.toInt) :
    ((high - low).toNat : ℤ) = high.toInt - low.toInt := by
  have hlow : -2 ^ w ≤ 2 * low.toInt := BitVec.le_two_mul_toInt
  have hhigh : 2 * high.toInt < 2 ^ w := BitVec.two_mul_toInt_lt
  have hdistance : high - low = BitVec.ofInt w (high.toInt - low.toInt) := by
    rw [← BitVec.toInt_inj, BitVec.toInt_sub, BitVec.toInt_ofInt]
  rw [hdistance, BitVec.toNat_ofInt]
  have hmod : (high.toInt - low.toInt) % ((2 ^ w : ℕ) : ℤ) = high.toInt - low.toInt :=
    Int.emod_eq_of_lt (by omega) (by push_cast; omega)
  rw [hmod, Int.toNat_of_nonneg (by omega)]

/-- **An element is the lower bound plus a remainder**, without wrapping. -/
theorem toInt_randomIntElement (h : low.toInt < high.toInt) (hash : BitVec 64) :
    (randomIntElement low high hash).toInt =
      low.toInt + ((hash.setWidth w).toNat : ℤ) % (high.toInt - low.toInt) := by
  have hlow : -2 ^ w ≤ 2 * low.toInt := BitVec.le_two_mul_toInt
  have hhigh : 2 * high.toInt < 2 ^ w := BitVec.two_mul_toInt_lt
  have hoffset : ((hash.setWidth w % (high - low)).toNat : ℤ) =
      ((hash.setWidth w).toNat : ℤ) % (high.toInt - low.toInt) := by
    rw [BitVec.toNat_umod, Int.natCast_emod, toNat_sub_of_toInt_lt h]
  have hbetween := add_emod_between h (hash.setWidth w).toNat
  rw [← hoffset] at hbetween ⊢
  have hsum : randomIntElement low high hash =
      BitVec.ofInt w (low.toInt + (hash.setWidth w % (high - low)).toNat) := by
    rw [randomIntElement, BitVec.ofInt_add, BitVec.ofInt_toInt, BitVec.ofInt_natCast,
      BitVec.ofNat_toNat, BitVec.setWidth_eq]
  rw [hsum, BitVec.toInt_ofInt]
  exact Int.bmod_eq_of_le_mul_two (by push_cast; omega) (by push_cast; omega)

end Element

/-! ## Literals -/

/-- The values that a compile-time integer random tensor is expanded to. -/
def staticRandomInts (target : TensorType) (seed : UInt64) (low high : ℤ) : List ℤ :=
  (List.range (elementCount target)).map fun index =>
    low + ((splitmix64 (seed + UInt64.ofNat index)).toNat : ℤ) % (high - low)

/-- **The expansion succeeds for all bounds of the element type.** -/
theorem staticRandomIntLiterals_eq {elem : ElementType} {width : ℕ}
    (hwidth : elem.intWidth = some width) {args : List Expr} {low high : ℤ}
    (hargs : parsePair "static_random_int" args = .ok (.int low, .int high))
    (hmin : -2 ^ (width - 1) ≤ low) (hlt : low < high) (hmax : high ≤ 2 ^ (width - 1))
    (shape : List ℕ) (seed : UInt64) :
    staticRandomIntLiterals ⟨elem, shape⟩ seed args =
      .ok ((staticRandomInts ⟨elem, shape⟩ seed low high).map integerText) := by
  have hbound : (2 : ℤ) ^ (width - 1) ≤ 2 ^ 63 := by
    rcases eq_i32_or_i64 hwidth with rfl | rfl
    · obtain rfl := Option.some.inj hwidth
      norm_num
    · obtain rfl := Option.some.inj hwidth
      norm_num
  norm_num at hbound
  have hrange : wrapI128 (high - low) = high - low :=
    wrapI128_of_fits ⟨by norm_num; omega, by norm_num; omega⟩
  have hbounds : parseIntegerBounds "static_random_int" args = .ok (low, high) := by
    simp [parseIntegerBounds, hargs, requireInt_int, hlt, failIf, bind, Except.bind, pure,
      Except.pure]
  have htarget : validateRandomIntTarget ⟨elem, shape⟩ "static_random_int" = .ok () := by
    rcases eq_i32_or_i64 hwidth with rfl | rfl <;> rfl
  have helement : ∀ sample : ℕ,
      integerLiteralForElem (wrapI128 (low + (sample % (high - low).toNat : ℕ))) elem =
        .ok (integerText (low + (sample : ℤ) % (high - low))) := by
    intro sample
    have hspan : ((high - low).toNat : ℤ) = high - low := Int.toNat_of_nonneg (by omega)
    have hbetween := add_emod_between hlt sample
    rw [Int.natCast_emod, hspan,
      wrapI128_of_fits ⟨by norm_num; omega, by norm_num; omega⟩]
    exact (integerLiteralForElem_eq_ok_iff hwidth).mpr ⟨⟨by omega, by omega⟩, rfl⟩
  have hpositive : decide (high - low < 0) = false := by simpa using hlt.le
  have hpass : failIf (decide (high - low < 0)) "static_random_int range must be positive" =
      .ok () := failIf_eq_ok_iff.mpr hpositive
  unfold staticRandomIntLiterals
  rw [htarget, hbounds]
  simp only [hrange, bind, Except.bind, hpass]
  rw [staticRandomInts, List.map_map]
  exact except_mapM_of_forall fun index _ => helement _

/-- The element at a position of the run-time tensor. -/
theorem randomIntTensor_getElem? {w : ℕ} (target : TensorType) (key : BitVec 64)
    (low high : BitVec w) {index : List ℕ} (hindex : InBounds index target.shape) :
    (randomIntTensor target key low high)[ravel target.shape index]? =
      some (randomIntElement low high
        (splitmix64InBlock (key + BitVec.ofNat 64 (ravel target.shape index)))) := by
  rw [randomIntTensor, randomTensor, randomCounters_eq, List.map_map, List.getElem?_map,
    List.getElem?_range (ravel_lt hindex)]
  rfl

/-- **Random integers are between their bounds.**  At run time there is an element
for every index, for every key, shape and pair of bounds of the target's width: the
lower bound plus the remainder of the hash of its counter, by a divisor that is never
zero.  The expansion of literals succeeds for every seed, shape and pair of bounds of
the element type, with one literal for each element that is counted. -/
theorem randomInts_inRange {elem : ElementType} {width : ℕ}
    (hwidth : elem.intWidth = some width) (shape : List ℕ) :
    (∀ (key : BitVec 64) (low high : BitVec width), low.toInt < high.toInt →
      high - low ≠ BitVec.ofNat width 0 ∧
      (randomIntTensor ⟨elem, shape⟩ key low high).length = shape.prod ∧
      ∀ index, InBounds index shape → ∃ value,
        (randomIntTensor ⟨elem, shape⟩ key low high)[ravel shape index]? = some value ∧
        value = low + (splitmix64InBlock
          (key + BitVec.ofNat 64 (ravel shape index))).setWidth width % (high - low) ∧
        low.toInt ≤ value.toInt ∧ value.toInt < high.toInt) ∧
    ∀ (seed : UInt64) (args : List Expr) (low high : ℤ),
      parsePair "static_random_int" args = .ok (.int low, .int high) →
      -2 ^ (width - 1) ≤ low → low < high → high ≤ 2 ^ (width - 1) →
      ∃ values : List ℤ,
        staticRandomIntLiterals ⟨elem, shape⟩ seed args = .ok (values.map integerText) ∧
        values.length = elementCount ⟨elem, shape⟩ ∧
        ∀ value ∈ values, low ≤ value ∧ value < high := by
  constructor
  · intro key low high hlt
    refine ⟨fun hzero => ?_, ?_, fun index hindex => ?_⟩
    · have hspan := toNat_sub_of_toInt_lt hlt
      simp only [hzero, BitVec.toNat_ofNat, Nat.zero_mod] at hspan
      omega
    · rw [randomIntTensor, randomTensor, randomCounters_eq, List.length_map, List.length_map,
        List.length_range]
    · refine ⟨_, randomIntTensor_getElem? ⟨elem, shape⟩ key low high hindex, rfl, ?_⟩
      rw [toInt_randomIntElement hlt]
      exact add_emod_between hlt _
  · intro seed args low high hargs hmin hlt hmax
    refine ⟨_, staticRandomIntLiterals_eq hwidth hargs hmin hlt hmax shape seed, ?_, ?_⟩
    · rw [staticRandomInts, List.length_map, List.length_range]
    · intro value hvalue
      obtain ⟨index, -, rfl⟩ := List.mem_map.mp hvalue
      exact add_emod_between hlt _

theorem randomInts_inRange_extremes :
    (∃ value, (randomIntTensor ⟨.i64, [2]⟩ 7 (BitVec.intMin 64) (BitVec.intMax 64))[1]? =
        some value ∧
      (BitVec.intMin 64).toInt ≤ value.toInt ∧ value.toInt < (BitVec.intMax 64).toInt) ∧
    ∃ values : List ℤ,
      staticRandomIntLiterals ⟨.i64, [2]⟩ 7 [.const "-9223372036854775808" .i64,
        .const "9223372036854775808" .i64] = .ok (values.map integerText) ∧
      values.length = 2 ∧ ∀ value ∈ values, -2 ^ 63 ≤ value ∧ value < 2 ^ 63 := by
  have h := @randomInts_inRange .i64 64 rfl [2]
  have helement := (h.1 7 (BitVec.intMin 64) (BitVec.intMax 64) (by decide)).2.2 [1] (by decide)
  obtain ⟨value, hvalue, -, hbetween⟩ := helement
  exact ⟨⟨value, hvalue, hbetween⟩,
    h.2 7 _ (-2 ^ 63) (2 ^ 63) rfl (by norm_num) (by norm_num) (by norm_num)⟩

/-! ## Two generators -/

/-- The mixer of the compiled program is the one that expands literals. -/
theorem splitmix64InBlock_toBitVec (value : UInt64) :
    splitmix64InBlock value.toBitVec = (splitmix64 value).toBitVec := by
  rw [splitmix64InBlock_eq, toBitVec_splitmix64]

/-- The run-time tensor, as integers. -/
theorem randomIntTensor_map_toInt {low high : BitVec 64} (h : low.toInt < high.toInt)
    (target : TensorType) (seed : UInt64) :
    (randomIntTensor target seed.toBitVec low high).map BitVec.toInt =
      (List.range target.shape.prod).map fun index => low.toInt +
        ((splitmix64 (seed + UInt64.ofNat index)).toNat : ℤ) % (high.toInt - low.toInt) := by
  rw [randomIntTensor, randomTensor, randomCounters_eq, List.map_map, List.map_map]
  refine List.map_congr_left fun index _ => ?_
  have hcounter : seed.toBitVec + BitVec.ofNat 64 index =
      (seed + UInt64.ofNat index).toBitVec := by
    rw [UInt64.toBitVec_add, UInt64.toBitVec_ofNat']
  rw [Function.comp_apply, Function.comp_apply, toInt_randomIntElement h, BitVec.setWidth_eq,
    hcounter, splitmix64InBlock_toBitVec, UInt64.toNat_toBitVec]

/-- The mixers agree on every word, and the expansion of literals is the run-time
tensor, element by element in row-major order. -/
def GeneratorsAgree (shape : List ℕ) (seed : UInt64) (args : List Expr) (low high : BitVec 64) :
    Prop :=
  (∀ value : UInt64, splitmix64InBlock value.toBitVec = (splitmix64 value).toBitVec) ∧
    staticRandomIntLiterals ⟨.i64, shape⟩ seed args =
      .ok (((randomIntTensor ⟨.i64, shape⟩ seed.toBitVec low high).map BitVec.toInt).map
        integerText)

/-- **The two generators agree** exactly when the elements of the tensor can be
counted in a word. -/
theorem generatorsAgree_iff (shape : List ℕ) (seed : UInt64) (args : List Expr)
    (low high : BitVec 64)
    (hargs : parsePair "static_random_int" args = .ok (.int low.toInt, .int high.toInt))
    (hlt : low.toInt < high.toInt) :
    GeneratorsAgree shape seed args low high ↔ shape.prod < 2 ^ 64 := by
  have hmin : -2 ^ 63 ≤ low.toInt := BitVec.le_toInt low
  have hmax : high.toInt ≤ 2 ^ 63 := BitVec.toInt_lt.le
  have hwidth : ElementType.i64.intWidth = some 64 := rfl
  rw [GeneratorsAgree, staticRandomIntLiterals_eq hwidth hargs hmin hlt hmax shape seed,
    randomIntTensor_map_toInt hlt, staticRandomInts, elementCount, usizeProduct_eq]
  constructor
  · rintro ⟨-, h⟩
    have hlen := congrArg List.length (Except.ok.inj h)
    simp only [List.length_map, List.length_range] at hlen
    exact (Nat.mod_eq_iff_lt (by norm_num)).mp hlen
  · intro hfits
    refine ⟨splitmix64InBlock_toBitVec, ?_⟩
    rw [Nat.mod_eq_of_lt hfits]

theorem generatorsAgree_iff_pair :
    GeneratorsAgree [2] 7 [.const "-5" .i64, .const "5" .i64] (-5) 5 ↔ [2].prod < 2 ^ 64 :=
  generatorsAgree_iff [2] 7 _ (-5) 5 rfl (by decide)

/-- The expansion of a tensor with `2 ^ 64` elements has no literals. -/
theorem not_generatorsAgree_wrapped :
    ¬ GeneratorsAgree [2 ^ 32, 2 ^ 32] 7 [.const "-5" .i64, .const "5" .i64] (-5) 5 := by
  rintro ⟨-, h⟩
  have hnone : staticRandomIntLiterals ⟨.i64, [2 ^ 32, 2 ^ 32]⟩ 7
      [.const "-5" .i64, .const "5" .i64] = .ok [] := rfl
  rw [hnone] at h
  have hlen := congrArg List.length (Except.ok.inj h)
  simp only [randomIntTensor, randomTensor, randomCounters_eq, List.length_map,
    List.length_range] at hlen
  norm_num at hlen

end Knok
