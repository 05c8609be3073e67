import Mathlib
import Knok.Broadcast
import Knok.Autograd.Unbroadcast
import Knok.Lowering.Shape

/-!
# The type rule of `broadcast`

Three functions decide about a broadcast: the type rule accepts it, the lowering
emits it, and the reverse rule sums its gradient.  The last two succeed exactly
when the input broadcasts to the target (`ensureBroadcastable_eq_ok_iff`,
`exists_unbroadcast_iff`).  The type rule asks for less: the two shapes need only
be compatible with each other, so it accepts broadcasts in which the target
would have to grow.
-/

namespace Knok

open Arrays Control

/-- The dimensions of two shapes that meet at the same axis, from the last one
on. -/
def alignedDims (lhs rhs : List ℕ) : List (ℕ × ℕ) := lhs.reverse.zip rhs.reverse

/-- At every axis of both shapes the dimensions agree or one of them is one. -/
def Compatible (lhs rhs : List ℕ) : Prop :=
  ∀ p ∈ alignedDims lhs rhs, p.1 = p.2 ∨ p.1 = 1 ∨ p.2 = 1

instance (lhs rhs : List ℕ) : Decidable (Compatible lhs rhs) :=
  inferInstanceAs (Decidable (∀ p ∈ alignedDims lhs rhs, p.1 = p.2 ∨ p.1 = 1 ∨ p.2 = 1))

theorem getD_reverse {shape : List ℕ} {axis : ℕ} (haxis : axis < shape.length) :
    shape.reverse.getD axis 0 = shape.getD (shape.length - 1 - axis) 0 := by
  rw [List.getD_eq_getElem _ _ (by simpa using haxis), List.getElem_reverse,
    List.getD_eq_getElem _ _ (by omega)]

/-- The aligned dimensions, by their distance from the last axis. -/
theorem mem_alignedDims {lhs rhs : List ℕ} {p : ℕ × ℕ} :
    p ∈ alignedDims lhs rhs ↔ ∃ back, back < lhs.length ∧ back < rhs.length ∧
      p = (lhs.getD (lhs.length - 1 - back) 0, rhs.getD (rhs.length - 1 - back) 0) := by
  unfold alignedDims
  rw [List.mem_iff_getElem]
  constructor
  · rintro ⟨back, hback, rfl⟩
    rw [List.length_zip, List.length_reverse, List.length_reverse, lt_min_iff] at hback
    refine ⟨back, hback.1, hback.2, ?_⟩
    rw [List.getElem_zip, ← getD_reverse hback.1, ← getD_reverse hback.2,
      List.getD_eq_getElem _ _ (by simpa using hback.1),
      List.getD_eq_getElem _ _ (by simpa using hback.2)]
  · rintro ⟨back, hl, hr, rfl⟩
    refine ⟨back, by simp [hl, hr], ?_⟩
    rw [List.getElem_zip, ← getD_reverse hl, ← getD_reverse hr,
      List.getD_eq_getElem _ _ (by simpa using hl), List.getD_eq_getElem _ _ (by simpa using hr)]

/-- A shape broadcasts to another when it has no more axes and every dimension of
it is the other's or one. -/
theorem broadcastsTo_iff_alignedDims {small big : List ℕ} :
    BroadcastsTo small big ↔
      small.length ≤ big.length ∧ ∀ p ∈ alignedDims small big, p.1 = p.2 ∨ p.1 = 1 := by
  rw [broadcastsTo_iff_getD]
  refine and_congr_right fun hle => ⟨fun h p hp => ?_, fun h axis haxis => ?_⟩
  · obtain ⟨back, hs, hb, rfl⟩ := mem_alignedDims.mp hp
    have hdim := h (small.length - 1 - back) (by omega)
    rwa [show big.length - small.length + (small.length - 1 - back) = big.length - 1 - back by
      omega] at hdim
  · have hdim := h _ (mem_alignedDims.mpr ⟨small.length - 1 - axis, by omega, by omega, rfl⟩)
    rwa [show small.length - 1 - (small.length - 1 - axis) = axis by omega,
      show big.length - 1 - (small.length - 1 - axis) = big.length - small.length + axis by
        omega] at hdim

/-- **The joined shape exists exactly for compatible shapes.** -/
theorem exists_broadcastShapeSlices_iff {lhs rhs : List ℕ} :
    (∃ shape, broadcastShapeSlices lhs rhs = .ok shape) ↔ Compatible lhs rhs := by
  constructor
  · rintro ⟨shape, hshape⟩ p hp
    obtain ⟨hlen, hdims⟩ := broadcastShapeSlices_eq_ok_iff.mp hshape
    obtain ⟨back, hl, hr, rfl⟩ := mem_alignedDims.mp hp
    have hdim := hdims (max lhs.length rhs.length - 1 - back) (by omega)
    rw [dimFromTrailing_eq_some (by omega) (by omega) (by omega),
      dimFromTrailing_eq_some (by omega) (by omega) (by omega), broadcastDim_some_eq_ok_iff,
      show max lhs.length rhs.length - 1 - back - (max lhs.length rhs.length - lhs.length) =
        lhs.length - 1 - back by omega,
      show max lhs.length rhs.length - 1 - back - (max lhs.length rhs.length - rhs.length) =
        rhs.length - 1 - back by omega] at hdim
    dsimp only
    omega
  · intro h
    have hdim : ∀ offset ∈ List.range (max lhs.length rhs.length), ∃ dim,
        broadcastDim offset (dimFromTrailing lhs (max lhs.length rhs.length) offset)
          (dimFromTrailing rhs (max lhs.length rhs.length) offset) = .ok dim := by
      intro offset hoffset
      rw [List.mem_range] at hoffset
      rcases Nat.lt_or_ge offset (max lhs.length rhs.length - lhs.length) with hl | hl
      · rw [dimFromTrailing_eq_none hl,
          @dimFromTrailing_eq_some rhs _ _ (by omega) hoffset (by omega)]
        exact ⟨_, rfl⟩
      rcases Nat.lt_or_ge offset (max lhs.length rhs.length - rhs.length) with hr | hr
      · rw [dimFromTrailing_eq_none hr, dimFromTrailing_eq_some hl hoffset (by omega)]
        exact ⟨_, rfl⟩
      · rw [dimFromTrailing_eq_some hl hoffset (by omega),
          dimFromTrailing_eq_some hr hoffset (by omega)]
        have hp := h _ (mem_alignedDims.mpr
          ⟨max lhs.length rhs.length - 1 - offset, by omega, by omega, rfl⟩)
        rw [show lhs.length - 1 - (max lhs.length rhs.length - 1 - offset) =
            offset - (max lhs.length rhs.length - lhs.length) by omega,
          show rhs.length - 1 - (max lhs.length rhs.length - 1 - offset) =
            offset - (max lhs.length rhs.length - rhs.length) by omega] at hp
        simp only [broadcastDim_some_eq_ok_iff]
        rcases hp with heq | hone | hone
        · exact ⟨_, .inl ⟨heq, rfl⟩⟩
        · exact ⟨_, .inr (.inl ⟨hone, rfl⟩)⟩
        · exact ⟨_, .inr (.inr ⟨rfl, hone⟩)⟩
    choose! dim hdim using hdim
    exact ⟨_, except_mapM_of_forall hdim⟩

/-- The type rule asks for equal element types and compatible shapes. -/
theorem inferCallResults_broadcast_iff {input target : TensorType} :
    (∃ results, inferCallResults (.broadcast target) [input] = .ok results) ↔
      input.elem = target.elem ∧ Compatible input.shape target.shape := by
  rw [← exists_broadcastShapeSlices_iff]
  by_cases helem : input.elem = target.elem <;>
    cases hshape : broadcastShapeSlices input.shape target.shape <;>
    simp [inferCallResults, expectUnary, validateBroadcast, broadcastShape, hshape, failIf, helem,
      pure, Except.pure, bind, Except.bind]

/-- What the type rule of `broadcast` is for: it accepts exactly the broadcasts
that exist, so lowering and differentiating an accepted one succeed. -/
def BroadcastRuleExact (input target : TensorType) : Prop :=
  ((∃ results, inferCallResults (.broadcast target) [input] = .ok results) ↔
    input.elem = target.elem ∧ broadcastShape input target = .ok target.shape) ∧
  ((∃ results, inferCallResults (.broadcast target) [input] = .ok results) →
    Lowering.ensureBroadcastable input target = .ok () ∧
      ∀ grad, ∃ e, Autograd.unbroadcast grad target input = .ok e)

/-- **The type rule of `broadcast` is exact except for targets that would have to
grow.**  These are the targets with fewer axes than the input or with a unit
dimension where the input has another, of the input's element type and
compatible with it otherwise. -/
theorem broadcastRuleExact_iff (input target : TensorType) :
    BroadcastRuleExact input target ↔
      (input.elem = target.elem → Compatible input.shape target.shape →
        input.rank ≤ target.rank ∧
          ∀ p ∈ alignedDims input.shape target.shape, p.2 = 1 → p.1 = 1) := by
  have hfits : input.elem = target.elem → Compatible input.shape target.shape →
      (BroadcastsTo input.shape target.shape ↔ input.rank ≤ target.rank ∧
        ∀ p ∈ alignedDims input.shape target.shape, p.2 = 1 → p.1 = 1) := by
    intro _ hcompatible
    rw [broadcastsTo_iff_alignedDims]
    refine and_congr_right fun _ => forall₂_congr fun p hp => ?_
    have := hcompatible p hp
    omega
  have hcompatible : BroadcastsTo input.shape target.shape →
      Compatible input.shape target.shape := fun h p hp =>
    ((broadcastsTo_iff_alignedDims.mp h).2 p hp).imp id Or.inl
  unfold BroadcastRuleExact
  rw [inferCallResults_broadcast_iff, broadcastShape, broadcastShapeSlices_eq_right_iff]
  simp only [Lowering.ensureBroadcastable_eq_ok_iff, Autograd.exists_unbroadcast_iff]
  constructor
  · rintro ⟨hexact, -⟩ helem hcomp
    exact (hfits helem hcomp).mp (hexact.mp ⟨helem, hcomp⟩).2
  · intro h
    have hexact : input.elem = target.elem ∧ Compatible input.shape target.shape ↔
        input.elem = target.elem ∧ BroadcastsTo input.shape target.shape :=
      ⟨fun ⟨helem, hcomp⟩ => ⟨helem, (hfits helem hcomp).mpr (h helem hcomp)⟩,
        fun ⟨helem, hto⟩ => ⟨helem, hcompatible hto⟩⟩
    refine ⟨hexact, fun haccepted => ?_⟩
    obtain ⟨helem, hto⟩ := hexact.mp haccepted
    exact ⟨⟨helem, hto⟩, fun _ => ⟨helem.symm, hto⟩⟩

/-- A matrix of two rows "broadcast" to one row is accepted by the type rule,
and neither lowered nor differentiated. -/
theorem not_broadcastRuleExact_shrinking :
    inferCallResults (.broadcast ⟨.f32, [1, 3]⟩) [⟨.f32, [2, 3]⟩] = .ok [⟨.f32, [1, 3]⟩] ∧
      ¬ BroadcastRuleExact ⟨.f32, [2, 3]⟩ ⟨.f32, [1, 3]⟩ := by
  refine ⟨rfl, fun h => ?_⟩
  have hshape := (h.1.mp ⟨_, rfl⟩).2
  rw [broadcastShape, broadcastShapeSlices_eq_right_iff] at hshape
  exact absurd hshape (by decide)

end Knok
