import Mathlib
import Knok.Arrays.Softmax
import Knok.Lowering.Reductions

/-!
# Lowering softmax

The lowering subtracts the maximum of the group, takes exponentials and divides by
their sum; maximum and sum are both reduced and brought back along the axis.  What
is subtracted makes no difference, as long as it is one number for the group.

Bringing a reduced value back goes wrong in the way of every broadcast: a reduced
tensor of more than `2 ^ 64` elements can be taken for a single one.  Then every
group is divided by the sum of the first.
-/

namespace Knok.Lowering

open Arrays Control

/-! ## Spreading a reduced value -/

section Spread

variable {R : Type} {axis : AxisSpec} {ty : TensorType} {i j : List ℕ}

/-- The type of a reduced tensor. -/
def reducedType (ty : TensorType) (axis : AxisSpec) : TensorType :=
  ⟨ty.elem, axis.reduce ty.shape⟩

/-- A reduced tensor has another type. -/
theorem reducedType_ne (hrank : ty.rank ≠ 0) (hfits : axis.Fits ty.shape) :
    reducedType ty axis ≠ ty := by
  intro hsame
  have hlength := congrArg TensorType.rank hsame
  cases axis with
  | all => exact hrank hlength.symm
  | one axis =>
      have hlonger := rank_add_one hfits (show (reducedType ty (.one axis)).shape = _ from rfl)
      exact absurd (hlonger.trans hlength.symm) (Nat.succ_ne_self _)

/-- Where a reduced value is read: at the position without the axis, or always at the
first position when the element count says one. -/
def spreadPlace (ty : TensorType) (axis : AxisSpec) (i : List ℕ) : List ℕ :=
  if elementCount (reducedType ty axis) = 1 then firstPosition (axis.reduce ty.shape)
  else axis.reduce i

theorem spreadReduced_lowers {reduced : Value R} {m : List ℕ → R} (hfits : axis.Fits ty.shape)
    (hdims : DimsFit ty.shape) (hty : reduced.ty = reducedType ty axis) (hm : reduced.Holds m) :
    Lowers (spreadReduced reduced ty axis) ty fun i => m (spreadPlace ty axis i) := by
  have helem : reduced.ty.elem = ty.elem := by rw [hty]; rfl
  cases axis with
  | all =>
      have hexact : CountsExactly reduced.ty ty := by
        rw [hty]
        exact .inr (.inr fun _ => rfl)
      have hto : BroadcastsTo reduced.ty.shape ty.shape := by
        rw [hty]
        exact broadcastsTo_nil ty.shape
      obtain ⟨⟨value, hvalue, hvalueTy, hholds⟩, -⟩ :=
        (broadcastLowersTo_iff reduced.dims_fit helem hto).mpr ⟨hdims, hexact⟩ R reduced m rfl hm
      refine ⟨value, hvalue, hvalueTy, fun i hi =>
        (hholds i hi).trans (congrArg (fun place => Cell.written (m place)) ?_)⟩
      apply List.eq_nil_of_length_eq_zero
      rw [hty, length_broadcastIndex (Nat.zero_le _)]
      rfl
  | one axis =>
      have hshape : reduced.ty.shape = ty.shape.eraseIdx axis := by rw [hty]; rfl
      by_cases hcount : elementCount reduced.ty = 1
      · refine ⟨_, broadcastAlongAxis_eq_of_elementCount_eq_one hm helem hfits hshape hcount hdims,
          rfl, fun i _ => congrArg (fun place => Cell.written (m place)) ?_⟩
        rw [spreadPlace, if_pos (hty ▸ hcount), hshape]
        rfl
      · obtain ⟨value, hvalue, hvalueTy, hholds⟩ :=
          exists_broadcastAlongAxis_of_elementCount_ne_one hm helem hfits hshape
            (kind_eq_tensor_of_elementCount_ne_one hcount) hcount hdims
        refine ⟨value, hvalue, hvalueTy, fun i hi =>
          (hholds i hi).trans (congrArg (fun place => Cell.written (m place)) ?_)⟩
        rw [spreadPlace, if_neg (hty ▸ hcount)]
        rfl

theorem inBounds_spreadPlace (hi : InBounds i ty.shape) :
    InBounds (spreadPlace ty axis i) (axis.reduce ty.shape) := by
  unfold spreadPlace
  split_ifs with hcount
  · exact inBounds_firstPosition (prod_ne_zero_of_elementCount hcount)
  · exact axis.inBounds_reduce hi

/-- A group is read at one place. -/
theorem spreadPlace_eq_of_mem (hj : j ∈ members ty.shape axis.reduce (spreadPlace ty axis i)) :
    spreadPlace ty axis j = spreadPlace ty axis i := by
  have hreduce := (mem_members.mp hj).2
  unfold spreadPlace at hreduce ⊢
  split_ifs at hreduce ⊢
  · rfl
  · exact hreduce

/-- Exact counts spread a reduced value over its own group. -/
theorem spreadPlace_eq_reduce (hexact : CountsExactly (reducedType ty axis) ty)
    (hrank : ty.rank ≠ 0) (hfits : axis.Fits ty.shape) (hi : InBounds i ty.shape) :
    spreadPlace ty axis i = axis.reduce i := by
  unfold spreadPlace
  split_ifs with hcount
  · have hprod : (axis.reduce ty.shape).prod = 1 := by
      rcases hexact with hsame | hempty | hone
      · exact absurd hsame (reducedType_ne hrank hfits)
      · have hlt := ravel_lt hi
        rw [hempty] at hlt
        exact absurd hlt (Nat.not_lt_zero _)
      · exact hone hcount
    exact (eq_firstPosition hprod (axis.inBounds_reduce hi)).symm
  · rfl

end Spread

/-! ## The lowered value -/

section Lowered

variable {K : Type} [Field K] {exp : K → K} {ops : MaxOps K} {axis : AxisSpec} {input : Value K}
  {x : List ℕ → K}

omit [Field K] in
/-- A maximum is some number for each group. -/
theorem exists_maxKeepDims_lowers (hrank : input.ty.rank ≠ 0) (hfits : axis.Fits input.ty.shape)
    (hcount : axis.usizeCount input.ty.shape ≠ 0) (hx : input.Holds x) :
    ∃ m, Lowers (maxKeepDims ops input axis false) (reducedType input.ty axis) m := by
  unfold maxKeepDims
  rw [ensureNonEmptyReduction_eq_ok hfits hcount]
  simp only [bind, Except.bind]
  rw [if_neg fun h => hrank h.1]
  exact ⟨_, reduce_lowers hfits hx⟩

/-- **What the lowering computes**: every exponential over the sum of the group that
the reduced value is read from. -/
theorem softmax_lowers (hexp : ∀ a b, exp (a + b) = exp a * exp b) (hrank : input.ty.rank ≠ 0)
    (hfits : axis.Fits input.ty.shape) (hcount : axis.usizeCount input.ty.shape ≠ 0)
    (hx : input.Holds x)
    (hsums : ∀ p, InBounds p (axis.reduce input.ty.shape) →
      ∑ j ∈ members input.ty.shape axis.reduce p, exp (x j) ≠ 0) :
    Lowers (softmax ops exp input axis) input.ty fun i => exp (x i) /
      ∑ j ∈ members input.ty.shape axis.reduce (spreadPlace input.ty axis i), exp (x j) := by
  let place := spreadPlace input.ty axis
  obtain ⟨m, reduced, hreduced, hreducedTy, hm⟩ :=
    @exists_maxKeepDims_lowers K ops axis input x hrank hfits hcount hx
  obtain ⟨max, hmax, hmaxTy, hmaxHolds⟩ := spreadReduced_lowers hfits input.dims_fit hreducedTy hm
  obtain ⟨shifted, hshifted, hshiftedTy, hshiftedHolds⟩ :=
    @emitBinary_lowers K (· - ·) input max input.ty _ _ rfl hmaxTy hx hmaxHolds
  obtain ⟨exponentials, hexponentials, hexpTy, hexpHolds⟩ :=
    @emitUnary_lowers K exp shifted _ hshiftedHolds
  rw [hshiftedTy] at hexpTy
  obtain ⟨sum, hsum, hsumTy, hsumHolds⟩ :=
    reduce_add_lowers (hexpTy.symm ▸ hfits : axis.Fits exponentials.ty.shape) hexpHolds
  have hsumTy' : sum.ty = reducedType exponentials.ty axis := hsumTy
  obtain ⟨denominator, hdenominator, hdenominatorTy, hdenominatorHolds⟩ :=
    spreadReduced_lowers (hexpTy.symm ▸ hfits : axis.Fits exponentials.ty.shape)
      exponentials.dims_fit hsumTy' hsumHolds
  have hquotient := @emitBinary_lowers K (· / ·) exponentials denominator input.ty _ _ hexpTy
    (hdenominatorTy.trans hexpTy) hexpHolds hdenominatorHolds
  have hsoftmax : softmax ops exp input axis = emitBinary (· / ·) exponentials denominator := by
    unfold softmax
    simp only [ensureNonEmptyReduction_eq_ok hfits hcount, hreduced, hmax, hshifted, hexponentials,
      hsum, hdenominator, bind, Except.bind]
  rw [hsoftmax]
  refine hquotient.congr fun i hi => ?_
  rw [hexpTy]
  -- the group is shifted by what is read at its one place
  have hgroup : ∑ j ∈ members input.ty.shape axis.reduce (place i), exp (x j - m (place j)) =
      ∑ j ∈ members input.ty.shape axis.reduce (place i), exp (x j - m (place i)) := by
    apply Finset.sum_congr rfl
    intro j hj
    rw [show place j = place i from spreadPlace_eq_of_mem hj]
  show exp (x i - m (place i)) / ∑ j ∈ members input.ty.shape axis.reduce (place i),
    exp (x j - m (place j)) = _
  rw [hgroup]
  exact exp_sub_div_sum hexp (hsums _ (inBounds_spreadPlace hi)) _ _

end Lowered

/-! ## When the lowering is exact -/

/-- The lowering computes softmax over every field with an exponential, whatever a
maximum is. -/
def SoftmaxLowersTo (inputTy : TensorType) (axis : AxisSpec) : Prop :=
  ∀ (K : Type) [Field K] (exp : K → K), (∀ a b, exp (a + b) = exp a * exp b) →
    ∀ (ops : MaxOps K) (input : Value K) (x : List ℕ → K), input.ty = inputTy → input.Holds x →
      (∀ p, InBounds p (axis.reduce inputTy.shape) →
        ∑ j ∈ members inputTy.shape axis.reduce p, exp (x j) ≠ 0) →
      Lowers (softmax ops exp input axis) inputTy
        (Arrays.softmax exp inputTy.shape axis.reduce x)

section Exact

variable {axis : AxisSpec} {inputTy ty : TensorType}

/-- The exponentials of a group in which one entry may be one and the others are zero. -/
theorem sum_exp_unitArray {i p : List ℕ} (shape : List ℕ) (axis : AxisSpec) :
    ∑ j ∈ members shape axis.reduce p, Real.exp (unitArray i j) =
      (members shape axis.reduce p).card +
        if i ∈ members shape axis.reduce p then Real.exp 1 - 1 else 0 := by
  have hentry : ∀ j, Real.exp (unitArray i j) = 1 + if i = j then Real.exp 1 - 1 else 0 := by
    intro j
    unfold unitArray
    by_cases h : j = i
    · simp [h]
    · simp [h, Ne.symm h]
  simp only [hentry, Finset.sum_add_distrib, Finset.sum_const, nsmul_eq_mul, mul_one,
    Finset.sum_ite_eq]

/-- **The lowering of softmax is exact unless a wrapped element count says one**, of
every type that MLIR can parse. -/
theorem softmaxLowersTo_iff (hok : inferCallResults (.softmax axis) [inputTy] = .ok [ty]) :
    SoftmaxLowersTo inputTy axis ↔
      (DimsFit inputTy.shape → CountsExactly (reducedType inputTy axis) inputTy) := by
  obtain ⟨-, hrank, hfits, hcount, -⟩ := inferCallResults_softmax_iff.mp hok
  constructor
  · intro h hparsed
    by_contra hwrong
    simp only [CountsExactly, not_or, Classical.not_imp] at hwrong
    obtain ⟨-, hfull, hone, hprod⟩ := hwrong
    -- one entry of the last group is one, the others are zero
    let i := lastPosition inputTy.shape
    let first := firstPosition (axis.reduce inputTy.shape)
    have hi : InBounds i inputTy.shape := inBounds_lastPosition hfull
    have hfirst : InBounds first (axis.reduce inputTy.shape) :=
      inBounds_firstPosition (prod_ne_zero_of_elementCount hone)
    let ops : MaxOps ℝ := ⟨0, fun _ => 0, fun _ => 0, max, max, max⟩
    let input : Value ℝ := .tensor inputTy (fun j => .written (unitArray i j)) hparsed
    have hplace : spreadPlace inputTy axis i = first := if_pos hone
    have hsums : ∀ p, InBounds p (axis.reduce inputTy.shape) →
        ∑ j ∈ members inputTy.shape axis.reduce p, Real.exp (unitArray i j) ≠ 0 := by
      intro p hp
      have hne : (members inputTy.shape axis.reduce p).Nonempty := by
        rw [← Finset.card_pos, AxisSpec.card_members hfits hp]
        exact Nat.pos_of_ne_zero (AxisSpec.count_ne_zero hcount)
      exact (Finset.sum_pos (fun j _ => Real.exp_pos _) hne).ne'
    have hclaimed := h ℝ Real.exp Real.exp_add ops input (unitArray i) rfl (fun _ _ => rfl) hsums
    have hlowered := @softmax_lowers ℝ _ Real.exp ops axis input (unitArray i) Real.exp_add hrank
      hfits hcount (fun _ _ => rfl) hsums
    obtain ⟨value, hvalue, -, hholds⟩ := hclaimed
    obtain ⟨value', hvalue', hty', hholds'⟩ := hlowered
    obtain rfl := Except.ok.inj (hvalue.symm.trans hvalue')
    have hquotient := Cell.written.inj
      ((hholds i (hty' ▸ hi)).symm.trans (hholds' i (hty' ▸ hi)))
    have hreduce : axis.reduce i = lastPosition (axis.reduce inputTy.shape) := by
      cases axis with
      | all => rfl
      | one axis => exact List.eraseIdx_map _ _ _
    have hother : i ∉ members inputTy.shape axis.reduce first := by
      intro hmem
      apply firstPosition_ne_lastPosition (prod_ne_zero_of_elementCount hone) hprod
      exact (mem_members.mp hmem).2.symm.trans hreduce
    have hown : i ∈ members inputTy.shape axis.reduce (axis.reduce i) :=
      mem_members.mpr ⟨hi, rfl⟩
    have hsum : ∑ j ∈ members inputTy.shape axis.reduce (axis.reduce i),
        Real.exp (unitArray i j) =
          ∑ j ∈ members inputTy.shape axis.reduce (spreadPlace inputTy axis i),
            Real.exp (unitArray i j) :=
      inv_injective (mul_left_cancel₀ (Real.exp_ne_zero (unitArray i i))
        (hquotient.trans (div_eq_mul_inv _ _)))
    rw [hplace, sum_exp_unitArray, sum_exp_unitArray, if_pos hown, if_neg hother,
      AxisSpec.card_members hfits hfirst, AxisSpec.card_members hfits (axis.inBounds_reduce hi),
      add_right_inj, sub_eq_zero] at hsum
    exact absurd hsum (Real.one_lt_exp_iff.mpr one_pos).ne'
  · rintro hexact K _ exp hexp ops input x rfl hx hsums
    refine (softmax_lowers hexp hrank hfits hcount hx hsums).congr fun i hi => ?_
    rw [spreadPlace_eq_reduce (hexact input.dims_fit) hrank hfits hi, softmax_eq_div]

end Exact

end Knok.Lowering
