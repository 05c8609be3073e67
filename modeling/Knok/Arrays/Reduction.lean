import Mathlib
import Knok.Arrays.Layout

/-!
# Groups of positions and the derivatives of what reduces them

A map of positions cuts an array into groups, one for each position it arrives at.
Sums, products, means and variances of a finite group are polynomial or linear in
its entries; their derivatives are read off dual numbers, where an entry `x` moving
in the direction `v` is `x + v ε`.
-/

namespace Arrays

/-! ## Groups -/

section Groups

variable {s t : List ℕ} {r : List ℕ → List ℕ} {i : List ℕ}

/-- The positions of a shape that are sent to `i`. -/
def members (s : List ℕ) (r : List ℕ → List ℕ) (i : List ℕ) : Finset (List ℕ) :=
  (box s).filter fun j => r j = i

theorem mem_members {j : List ℕ} : j ∈ members s r i ↔ InBounds j s ∧ r j = i := by
  rw [members, Finset.mem_filter, mem_box]

/-- Summing over all groups is summing over all positions. -/
theorem sum_members {M : Type*} [AddCommMonoid M] (hr : ∀ j, InBounds j s → InBounds (r j) t)
    (f : List ℕ → List ℕ → M) :
    ∑ i ∈ box t, ∑ j ∈ members s r i, f i j = ∑ j ∈ box s, f (r j) j := by
  rw [← Finset.sum_fiberwise_of_maps_to fun j hj => mem_box.mpr (hr j (mem_box.mp hj))]
  refine Finset.sum_congr rfl fun i _ => Finset.sum_congr rfl fun j hj => ?_
  rw [(mem_members.mp hj).2]

/-- **A weighted sum over every group is adjoint to spreading over the group.** -/
theorem inner_members {R : Type*} [CommRing R] (hr : ∀ j, InBounds j s → InBounds (r j) t)
    (g v : List ℕ → R) (w : List ℕ → List ℕ → R) :
    inner t g (fun i => ∑ j ∈ members s r i, w i j * v j) =
      inner s (fun j => g (r j) * w (r j) j) v := by
  unfold inner
  simp only [Finset.mul_sum]
  rw [sum_members hr fun i j => g i * (w i j * v j)]
  exact Finset.sum_congr rfl fun j _ => (mul_assoc _ _ _).symm

theorem card_box (s : List ℕ) : (box s).card = s.prod := by
  rw [box, List.toFinset_card_of_nodup (nodup_positions s), length_positions]

/-- One group, when the map has one value. -/
theorem members_const (s i : List ℕ) : members s (fun _ => i) i = box s := by
  rw [members, Finset.filter_true_of_mem fun _ _ => rfl]

/-- The groups of the map that leaves one axis out. -/
theorem members_eraseIdx {axis : ℕ} (haxis : axis < s.length) (hi : InBounds i (s.eraseIdx axis)) :
    members s (fun j => j.eraseIdx axis) i =
      (Finset.range (s.getD axis 0)).image fun k => i.insertIdx axis k := by
  have hle : axis ≤ (s.eraseIdx axis).length := by
    rw [List.length_eraseIdx, if_pos haxis]
    omega
  have hile : axis ≤ i.length := hi.length_eq ▸ hle
  ext j
  rw [mem_members, Finset.mem_image]
  constructor
  · rintro ⟨hj, rfl⟩
    have hjaxis : axis < j.length := hj.length_eq ▸ haxis
    exact ⟨j.getD axis 0, Finset.mem_range.mpr (hj.getD_lt haxis), by
      rw [List.getD_eq_getElem _ _ hjaxis, List.insertIdx_eraseIdx_getElem hjaxis]⟩
  · rintro ⟨k, hk, rfl⟩
    have hinsert := InBounds.insertIdx hi hle (Finset.mem_range.mp hk)
    rw [List.getD_eq_getElem _ _ haxis, List.insertIdx_eraseIdx_getElem haxis] at hinsert
    exact ⟨hinsert, List.eraseIdx_insertIdx_self k⟩

/-- Different coordinates give different positions. -/
theorem injOn_insertIdx {axis : ℕ} (haxis : axis ≤ i.length) (coords : Set ℕ) :
    Set.InjOn (fun k => i.insertIdx axis k) coords := by
  intro k _ k' _ heq
  have hcoord := congrArg (fun l => l.getD axis 0) heq
  dsimp only at hcoord
  rwa [getD_insertIdx_self haxis, getD_insertIdx_self haxis] at hcoord

end Groups

/-! ## Statistics of a group -/

section Statistics

variable {K A ι : Type*} [Field K] [CommRing A] [Algebra K A]

/-- The mean of a group. -/
def mean (K : Type*) {A ι : Type*} [Field K] [CommRing A] [Algebra K A] (s : Finset ι)
    (x : ι → A) : A :=
  (s.card : K)⁻¹ • ∑ j ∈ s, x j

theorem mean_congr {s : Finset ι} {x y : ι → A} (h : ∀ j ∈ s, x j = y j) :
    mean K s x = mean K s y := by
  rw [mean, mean, Finset.sum_congr rfl h]

/-- The variance of a group: the mean of the squared deviations. -/
def variance (K : Type*) {A ι : Type*} [Field K] [CommRing A] [Algebra K A] (s : Finset ι)
    (x : ι → A) : A :=
  mean K s fun j => (x j - mean K s x) ^ 2

end Statistics

/-! ## Derivatives -/

section Derivatives

variable {K ι : Type*} [Field K] {s : Finset ι} {x v : ι → K}

-- found at once by whoever works with dual numbers over a field
instance instIsCentralScalarField : IsCentralScalar K K := inferInstance

/-- An entry that moves in a direction. -/
def moving (x v : K) : DualNumber K := TrivSqZeroExt.inl x + TrivSqZeroExt.inr v

@[simp] theorem fst_moving (x v : K) : (moving x v).fst = x := by simp [moving]

@[simp] theorem snd_moving (x v : K) : (moving x v).snd = v := by simp [moving]

theorem snd_sum_moving (s : Finset ι) (x v : ι → K) :
    (∑ j ∈ s, moving (x j) (v j)).snd = ∑ j ∈ s, v j := by
  rw [TrivSqZeroExt.snd_sum]
  exact Finset.sum_congr rfl fun j _ => snd_moving _ _

theorem fst_sum_moving (s : Finset ι) (x v : ι → K) :
    (∑ j ∈ s, moving (x j) (v j)).fst = ∑ j ∈ s, x j := by
  rw [TrivSqZeroExt.fst_sum]
  exact Finset.sum_congr rfl fun j _ => fst_moving _ _

/-- **The mean moves with the mean of the directions.** -/
theorem mean_moving (s : Finset ι) (x v : ι → K) :
    mean K s (fun j => moving (x j) (v j)) = moving (mean K s x) (mean K s v) := by
  refine TrivSqZeroExt.ext ?_ ?_
  · rw [mean, TrivSqZeroExt.fst_smul, fst_sum_moving, fst_moving]
    rfl
  · rw [mean, TrivSqZeroExt.snd_smul, snd_sum_moving, snd_moving]
    rfl

/-- The deviations from the mean add up to nothing. -/
theorem sum_sub_mean [CharZero K] (s : Finset ι) (x : ι → K) : ∑ j ∈ s, (x j - mean K s x) = 0 := by
  rw [Finset.sum_sub_distrib, Finset.sum_const, mean, nsmul_eq_mul, smul_eq_mul]
  rcases s.eq_empty_or_nonempty with rfl | hs
  · simp
  · have hcard : (s.card : K) ≠ 0 := Nat.cast_ne_zero.mpr hs.card_pos.ne'
    rw [mul_inv_cancel_left₀ hcard, sub_self]

/-- **The derivative of the variance**: the deviation of the direction from its own
mean drops out. -/
theorem snd_variance_moving [CharZero K] (s : Finset ι) (x v : ι → K) :
    (variance K s fun j => moving (x j) (v j)).snd =
      ∑ j ∈ s, 2 * (x j - mean K s x) / s.card * v j := by
  have hsquare : ∀ j, (moving (x j) (v j) - mean K s fun j => moving (x j) (v j)) ^ 2 =
      moving ((x j - mean K s x) ^ 2) (2 * (x j - mean K s x) * (v j - mean K s v)) := by
    intro j
    rw [mean_moving]
    refine TrivSqZeroExt.ext (by simp) ?_
    rw [pow_two, TrivSqZeroExt.snd_mul]
    simp
    ring
  unfold variance
  simp only [hsquare]
  rw [mean_moving, snd_moving, mean, smul_eq_mul]
  calc (s.card : K)⁻¹ * ∑ j ∈ s, 2 * (x j - mean K s x) * (v j - mean K s v)
      = (s.card : K)⁻¹ * (∑ j ∈ s, 2 * (x j - mean K s x) * v j -
          2 * mean K s v * ∑ j ∈ s, (x j - mean K s x)) := by
        congr 1
        rw [Finset.mul_sum, ← Finset.sum_sub_distrib]
        exact Finset.sum_congr rfl fun j _ => by ring
    _ = ∑ j ∈ s, 2 * (x j - mean K s x) / s.card * v j := by
        rw [sum_sub_mean, mul_zero, sub_zero, Finset.mul_sum]
        exact Finset.sum_congr rfl fun j _ => by ring

/-- **The derivative of a product of units.** -/
theorem snd_prod_moving (s : Finset ι) (x v : ι → K) (hx : ∀ j ∈ s, x j ≠ 0) :
    (∏ j ∈ s, moving (x j) (v j)).snd = ∑ j ∈ s, (∏ k ∈ s, x k) / x j * v j := by
  classical
  have hprod : ∏ j ∈ s, moving (x j) (v j) =
      moving (∏ j ∈ s, x j) (∑ j ∈ s, (∏ k ∈ s, x k) / x j * v j) := by
    induction s using Finset.induction_on with
    | empty => exact TrivSqZeroExt.ext (by simp) (by simp)
    | insert a s ha ih =>
        have hxa : x a ≠ 0 := hx a (Finset.mem_insert_self a s)
        rw [Finset.prod_insert ha, ih fun j hj => hx j (Finset.mem_insert_of_mem hj),
          Finset.prod_insert ha, Finset.sum_insert ha]
        refine TrivSqZeroExt.ext (by simp) ?_
        rw [TrivSqZeroExt.snd_mul]
        simp only [fst_moving, snd_moving, smul_eq_mul, MulOpposite.smul_eq_mul_unop,
          MulOpposite.unop_op]
        rw [mul_div_cancel_left₀ _ hxa, Finset.mul_sum, mul_comm (v a), add_comm]
        congr 1
        exact Finset.sum_congr rfl fun j _ => by ring
  rw [hprod, snd_moving]

end Derivatives

end Arrays
