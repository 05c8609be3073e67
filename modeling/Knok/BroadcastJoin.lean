import Mathlib
import Knok.Broadcast
import Knok.PartialJoin

/-!
# Broadcasting as a partial join

Shapes are ordered by broadcasting, with the empty shape at the bottom.
`broadcastShapeSlices` is the partial join of this order: it returns the least
shape that both operands broadcast to, and an error when there is none.
-/

namespace Knok

open Arrays Control PartialJoin

/-- Broadcasting orders the shapes. -/
theorem broadcastsTo_antisymm {a b : List ℕ} (h : BroadcastsTo a b) (h' : BroadcastsTo b a) :
    a = b := by
  obtain ⟨hle, hdim⟩ := broadcastsTo_iff_getD.mp h
  obtain ⟨hle', hdim'⟩ := broadcastsTo_iff_getD.mp h'
  have hlen : a.length = b.length := Nat.le_antisymm hle hle'
  refine ext_getD hlen fun axis haxis => ?_
  have hforth := hdim axis haxis
  have hback := hdim' axis (hlen ▸ haxis)
  rw [hlen, Nat.sub_self, Nat.zero_add] at hforth hback
  omega

/-- The joined shape, when there is one. -/
def broadcastJoin (lhs rhs : List ℕ) : Option (List ℕ) := (broadcastShapeSlices lhs rhs).toOption

/-- **Broadcasting two shapes is the partial join of the broadcasting order.** -/
theorem isPartialJoin_broadcastJoin : IsPartialJoin BroadcastsTo broadcastJoin where
  refl := broadcastsTo_refl
  trans := BroadcastsTo.trans
  antisymm := broadcastsTo_antisymm
  upper h := broadcastsTo_of_broadcastShapeSlices (except_toOption_eq_some_iff.mp h)
  least had hbd := by
    obtain ⟨shape, hshape, hbig⟩ := exists_joined had hbd
    exact ⟨shape, except_toOption_eq_some_iff.mpr hshape, hbig⟩

end Knok
