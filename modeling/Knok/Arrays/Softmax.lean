import Mathlib
import Knok.Arrays.Reduction

/-!
# Softmax over groups of positions

A map of positions cuts an array into groups.  Softmax divides the exponential of
an entry by the sum of the exponentials in its group.  All that is asked of the
exponential is that it turns sums into products; on dual numbers it is extended by
`exp (a + b ε) = exp a + exp a · b ε`.
-/

namespace Arrays

/-- Softmax over the groups of a map of positions. -/
def softmax {A : Type*} [CommRing A] [Inv A] (exp : A → A) (s : List ℕ) (r : List ℕ → List ℕ)
    (x : List ℕ → A) (i : List ℕ) : A :=
  exp (x i) * (∑ j ∈ members s r (r i), exp (x j))⁻¹

section Softmax

variable {K : Type*} [Field K] {exp : K → K} {s t i : List ℕ} {r : List ℕ → List ℕ}

theorem softmax_eq_div (x : List ℕ → K) :
    softmax exp s r x i = exp (x i) / ∑ j ∈ members s r (r i), exp (x j) :=
  (div_eq_mul_inv _ _).symm

/-- **Shifting a group by one number changes no quotient.** -/
theorem exp_sub_div_sum {ι : Type*} (hexp : ∀ a b, exp (a + b) = exp a * exp b) {G : Finset ι}
    {x : ι → K} (hsum : ∑ j ∈ G, exp (x j) ≠ 0) (a c : K) :
    exp (a - c) / ∑ j ∈ G, exp (x j - c) = exp a / ∑ j ∈ G, exp (x j) := by
  have hshift : ∀ b, exp b = exp (b - c) * exp c := fun b => by rw [← hexp, sub_add_cancel]
  have htotal : ∑ j ∈ G, exp (x j) = (∑ j ∈ G, exp (x j - c)) * exp c := by
    rw [Finset.sum_mul]
    exact Finset.sum_congr rfl fun j _ => hshift (x j)
  have hc : exp c ≠ 0 := right_ne_zero_of_mul (htotal ▸ hsum)
  rw [htotal, hshift a]
  exact (mul_div_mul_right _ _ hc).symm

/-! ## The derivative -/

/-- The exponential of a dual number. -/
def dualExp (exp : K → K) (d : DualNumber K) : DualNumber K :=
  moving (exp d.fst) (exp d.fst * d.snd)

/-- The derivative of softmax at `x` in the direction `v`. -/
def softmaxDerivative (exp : K → K) (s : List ℕ) (r : List ℕ → List ℕ) (x v : List ℕ → K)
    (i : List ℕ) : K :=
  (softmax (dualExp exp) s r (fun j => moving (x j) (v j)) i).snd

/-- **The Jacobian of softmax**: an entry moves with its distance from the weighted
mean of its group. -/
theorem softmaxDerivative_eq (x v : List ℕ → K) :
    softmaxDerivative exp s r x v i =
      softmax exp s r x i *
        (v i - ∑ j ∈ members s r (r i), softmax exp s r x j * v j) := by
  have hgroup : ∀ j ∈ members s r (r i), softmax exp s r x j =
      exp (x j) * (∑ k ∈ members s r (r i), exp (x k))⁻¹ := by
    intro j hj
    rw [softmax, (mem_members.mp hj).2]
  have hmean : ∑ j ∈ members s r (r i), softmax exp s r x j * v j =
      (∑ j ∈ members s r (r i), exp (x j) * v j) *
        (∑ k ∈ members s r (r i), exp (x k))⁻¹ := by
    rw [Finset.sum_mul]
    apply Finset.sum_congr rfl
    intro j hj
    rw [hgroup j hj, mul_right_comm]
  have hexp : ∀ j, dualExp exp (moving (x j) (v j)) = moving (exp (x j)) (exp (x j) * v j) := by
    intro j
    rw [dualExp, fst_moving, snd_moving]
  rw [hmean]
  unfold softmaxDerivative softmax
  simp only [hexp, TrivSqZeroExt.snd_mul, TrivSqZeroExt.snd_inv, TrivSqZeroExt.fst_inv,
    fst_sum_moving, snd_sum_moving, fst_moving, snd_moving, smul_eq_mul,
    MulOpposite.smul_eq_mul_unop, MulOpposite.unop_op]
  ring

/-- **The transposed derivative of softmax.** -/
theorem inner_softmaxDerivative (hr : ∀ j, InBounds j s → InBounds (r j) t)
    (x v g : List ℕ → K) :
    inner s (softmaxDerivative exp s r x v) g =
      inner s v fun j => softmax exp s r x j *
        (g j - ∑ i ∈ members s r (r j), g i * softmax exp s r x i) := by
  let y := softmax exp s r x
  -- both double sums run over pairs of positions in one group
  have hpairs : ∑ i ∈ box s, ∑ j ∈ members s r (r i), g i * y i * (y j * v j) =
      ∑ j ∈ box s, ∑ i ∈ members s r (r j), g i * y i * (y j * v j) := by
    rw [← sum_members hr fun p i => ∑ j ∈ members s r p, g i * y i * (y j * v j),
      ← sum_members hr fun p j => ∑ i ∈ members s r p, g i * y i * (y j * v j)]
    exact Finset.sum_congr rfl fun p _ => Finset.sum_comm
  unfold inner
  calc ∑ i ∈ box s, softmaxDerivative exp s r x v i * g i
      = ∑ i ∈ box s, (g i * y i * v i -
          ∑ j ∈ members s r (r i), g i * y i * (y j * v j)) := by
        apply Finset.sum_congr rfl
        intro i _
        rw [softmaxDerivative_eq, ← Finset.mul_sum]
        ring
    _ = ∑ j ∈ box s, (g j * y j * v j -
          ∑ i ∈ members s r (r j), g i * y i * (y j * v j)) := by
        rw [Finset.sum_sub_distrib, Finset.sum_sub_distrib, hpairs]
    _ = ∑ j ∈ box s, v j * (y j * (g j - ∑ i ∈ members s r (r j), g i * y i)) := by
        apply Finset.sum_congr rfl
        intro j _
        rw [← Finset.sum_mul]
        ring

end Softmax

end Arrays
