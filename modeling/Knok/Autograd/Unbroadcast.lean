import Mathlib
import Knok.Autograd.Reverse
import Knok.Arrays.Broadcast
import Knok.Arrays.Layout

/-!
# Undoing a broadcast: shapes

`unbroadcast` first sums over leading axes until the target's rank is reached and
then over the axes along which the target has size one.  The shape it arrives at
is computed here; it is the target's exactly when the target broadcasts to the
source.
-/

namespace Knok.Autograd

open Arrays

theorem sumLeading_shape (rank : ℕ) (shape : List ℕ) :
    ∀ expr : Expr, (sumLeading rank expr shape).2 = shape.drop (shape.length - rank) := by
  induction shape with
  | nil =>
      intro expr
      simp [sumLeading]
  | cons dim shape ih =>
      intro expr
      unfold sumLeading
      split_ifs with hrank
      · rw [ih, List.length_cons, Nat.sub_add_comm (by simpa [Nat.lt_succ_iff] using hrank),
          List.drop_succ_cons]
      · rw [Nat.sub_eq_zero_of_le (by omega), List.drop_zero]

/-- The loop over the axes from `axis` on, `left` of them. -/
theorem sumUnitAxes_shape (elem : ElementType) (target : List ℕ) (left : ℕ) :
    ∀ (axis : ℕ) (expr : Expr) (shape : List ℕ), axis + left ≤ shape.length →
      (sumUnitAxes elem target left axis (expr, shape)).2.length = shape.length ∧
        ∀ other, (sumUnitAxes elem target left axis (expr, shape)).2.getD other 0 =
          if axis ≤ other ∧ other < axis + left ∧ target.getD other 0 = 1 then 1
          else shape.getD other 0 := by
  induction left with
  | zero =>
      intro axis expr shape _
      refine ⟨rfl, fun other => ?_⟩
      rw [if_neg (by omega)]
      rfl
  | succ left ih =>
      intro axis expr shape hle
      have haxis : axis < shape.length := by omega
      unfold sumUnitAxes
      split_ifs with hunit
      · dsimp only
        rw [insertIdx_eraseIdx_self haxis]
        obtain ⟨hlen, hdim⟩ := ih (axis + 1)
          (call (.reshape ⟨elem, shape.set axis 1⟩) [call (.sum (.one axis)) [expr]])
          (shape.set axis 1) (by rw [List.length_set]; omega)
        refine ⟨by rw [hlen, List.length_set], fun other => ?_⟩
        rw [hdim, getD_set]
        by_cases hother : other = axis
        · subst hother
          rw [if_neg (by omega), if_pos ⟨rfl, haxis⟩, if_pos ⟨le_rfl, by omega, hunit.1⟩]
        · rw [if_neg (c := other = axis ∧ axis < shape.length) fun h => hother h.1]
          exact if_congr (by omega) rfl rfl
      · obtain ⟨hlen, hdim⟩ := ih (axis + 1) expr shape (by omega)
        refine ⟨hlen, fun other => ?_⟩
        rw [hdim]
        by_cases hother : other = axis
        · subst hother
          rw [if_neg (by omega)]
          split_ifs with htarget
          · exact not_not.mp fun hne => hunit ⟨htarget.2.2, hne⟩
          · rfl
        · exact if_congr (by omega) rfl rfl

/-- The shape that `unbroadcast` arrives at. -/
theorem unbroadcast_shape {source target : List ℕ} (elem : ElementType) (expr : Expr)
    (hle : target.length ≤ source.length) :
    (sumUnitAxes elem target target.length 0
        (expr, source.drop (source.length - target.length))).2 = target ↔
      BroadcastsTo target source := by
  have hdrop : (source.drop (source.length - target.length)).length = target.length := by
    rw [List.length_drop]
    omega
  obtain ⟨hlen, hdim⟩ := sumUnitAxes_shape elem target target.length 0 expr
    (source.drop (source.length - target.length)) (by omega)
  rw [broadcastsTo_iff_getD]
  constructor
  · intro heq
    refine ⟨hle, fun axis haxis => ?_⟩
    have hd := hdim axis
    rw [heq, getD_drop] at hd
    split_ifs at hd with hone
    · exact .inr hd
    · exact .inl hd
  · rintro ⟨-, hdims⟩
    refine ext_getD (hlen.trans hdrop) fun axis haxis => ?_
    rw [hlen, hdrop] at haxis
    rw [hdim, getD_drop]
    split_ifs with hone
    · exact hone.2.2.symm
    · rcases hdims axis haxis with heq | hone'
      · exact heq.symm
      · exact absurd ⟨Nat.zero_le _, by omega, hone'⟩ hone

/-- **A gradient can be reduced to an operand's type exactly when the element
types agree and the operand's shape broadcasts to the gradient's.** -/
theorem exists_unbroadcast_iff {expr : Expr} {sourceTy targetTy : TensorType} :
    (∃ e, unbroadcast expr sourceTy targetTy = .ok e) ↔
      sourceTy.elem = targetTy.elem ∧ BroadcastsTo targetTy.shape sourceTy.shape := by
  unfold unbroadcast
  have hshape : (sumLeading targetTy.rank expr sourceTy.shape).2 =
      sourceTy.shape.drop (sourceTy.shape.length - targetTy.shape.length) :=
    sumLeading_shape targetTy.rank sourceTy.shape expr
  rcases hlead : sumLeading targetTy.rank expr sourceTy.shape with ⟨summed, shape⟩
  rw [hlead] at hshape
  dsimp only at hshape ⊢
  subst hshape
  by_cases hle : targetTy.shape.length ≤ sourceTy.shape.length
  · have hrank : (sourceTy.shape.drop (sourceTy.shape.length - targetTy.shape.length)).length =
        targetTy.rank := by
      rw [List.length_drop, TensorType.rank]
      omega
    rw [if_neg (not_not.mpr hrank)]
    have hiff := unbroadcast_shape sourceTy.elem summed hle
    rcases hunit : sumUnitAxes sourceTy.elem targetTy.shape targetTy.rank 0
      (summed, sourceTy.shape.drop (sourceTy.shape.length - targetTy.shape.length))
      with ⟨reduced, shape⟩
    rw [TensorType.rank] at hunit
    rw [hunit] at hiff
    dsimp only at hiff ⊢
    rw [← hiff]
    by_cases hty : (⟨sourceTy.elem, shape⟩ : TensorType) = targetTy
    · rw [if_neg (not_not.mpr hty)]
      subst hty
      simp
    · rw [if_pos hty]
      have : ¬ (sourceTy.elem = targetTy.elem ∧ shape = targetTy.shape) := by
        rintro ⟨helem, hshape⟩
        exact hty (by rw [helem, hshape])
      simp [this]
  · have hrank : (sourceTy.shape.drop (sourceTy.shape.length - targetTy.shape.length)).length ≠
        targetTy.rank := by
      rw [List.length_drop, TensorType.rank]
      omega
    rw [if_pos hrank]
    have : ¬ BroadcastsTo targetTy.shape sourceTy.shape := fun h => hle h.1
    simp [this]

end Knok.Autograd
