import Mathlib
import Knok.Arrays.Gather

/-!
# Broadcasting

Two shapes are aligned at their last axes.  A shape broadcasts to another when
every dimension of it is the other's or one; the entry at a position of the
large array is then the entry of the small one at the last coordinates, with
coordinate zero along unit dimensions.
-/

namespace Arrays

/-- The shape can be repeated along new leading axes and unit dimensions to give
the larger shape. -/
def BroadcastsTo (small big : List ℕ) : Prop :=
  small.length ≤ big.length ∧
    List.Forall₂ (fun d e => d = e ∨ d = 1) small (big.drop (big.length - small.length))

instance (small big : List ℕ) : Decidable (BroadcastsTo small big) :=
  inferInstanceAs (Decidable (_ ∧ _))

/-- The position of the small array that a position of the large one reads. -/
def broadcastIndex (small i : List ℕ) : List ℕ :=
  List.zipWith (fun d k => if d = 1 then 0 else k) small (i.drop (i.length - small.length))

theorem getD_drop (i : List ℕ) (count axis : ℕ) :
    (i.drop count).getD axis 0 = i.getD (count + axis) 0 := by
  rw [List.getD_eq_getElem?_getD, List.getD_eq_getElem?_getD, List.getElem?_drop]

/-- Broadcasting, dimension by dimension. -/
theorem broadcastsTo_iff_getD {small big : List ℕ} :
    BroadcastsTo small big ↔ small.length ≤ big.length ∧ ∀ axis < small.length,
      small.getD axis 0 = big.getD (big.length - small.length + axis) 0 ∨
        small.getD axis 0 = 1 := by
  unfold BroadcastsTo
  refine and_congr_right fun hle => ?_
  rw [List.forall₂_iff_get]
  have hlen : small.length = (big.drop (big.length - small.length)).length := by
    rw [List.length_drop]
    omega
  constructor
  · rintro ⟨-, h⟩ axis haxis
    have hd := h axis haxis (hlen ▸ haxis)
    rw [← getD_drop, List.getD_eq_getElem _ _ haxis, List.getD_eq_getElem _ _ (hlen ▸ haxis)]
    exact hd
  · refine fun h => ⟨hlen, fun axis haxis haxis' => ?_⟩
    have hd := h axis haxis
    rwa [← getD_drop, List.getD_eq_getElem _ _ haxis, List.getD_eq_getElem _ _ haxis'] at hd

theorem broadcastsTo_refl (shape : List ℕ) : BroadcastsTo shape shape :=
  broadcastsTo_iff_getD.mpr ⟨le_rfl, fun axis _ => .inl (by simp)⟩

theorem broadcastsTo_nil (big : List ℕ) : BroadcastsTo [] big :=
  broadcastsTo_iff_getD.mpr ⟨Nat.zero_le _, fun _ haxis => absurd haxis (Nat.not_lt_zero _)⟩

theorem BroadcastsTo.trans {small mid big : List ℕ} (h : BroadcastsTo small mid)
    (h' : BroadcastsTo mid big) : BroadcastsTo small big := by
  obtain ⟨hle, hdim⟩ := broadcastsTo_iff_getD.mp h
  obtain ⟨hle', hdim'⟩ := broadcastsTo_iff_getD.mp h'
  refine broadcastsTo_iff_getD.mpr ⟨hle.trans hle', fun axis haxis => ?_⟩
  have hmid := hdim' (mid.length - small.length + axis) (by omega)
  rw [show big.length - mid.length + (mid.length - small.length + axis) =
    big.length - small.length + axis by omega] at hmid
  rcases hdim axis haxis with heq | hone
  · rwa [heq]
  · exact .inr hone

theorem length_broadcastIndex {small i : List ℕ} (hle : small.length ≤ i.length) :
    (broadcastIndex small i).length = small.length := by
  rw [broadcastIndex, List.length_zipWith, List.length_drop]
  omega

theorem getD_broadcastIndex {small i : List ℕ} (hle : small.length ≤ i.length) {axis : ℕ}
    (haxis : axis < small.length) :
    (broadcastIndex small i).getD axis 0 =
      if small.getD axis 0 = 1 then 0 else i.getD (i.length - small.length + axis) 0 := by
  have hlen : small.length = (i.drop (i.length - small.length)).length := by
    rw [List.length_drop]
    omega
  rw [broadcastIndex, getD_zipWith _ hlen haxis, getD_drop]

/-- Shapes of one rank, dimension by dimension. -/
theorem broadcastsTo_of_forall₂ {small big : List ℕ}
    (h : List.Forall₂ (fun d e => d = e ∨ d = 1) small big) : BroadcastsTo small big := by
  refine ⟨h.length_eq.le, ?_⟩
  rwa [h.length_eq, Nat.sub_self, List.drop_zero]

/-- Positions of an array of the same rank, coordinate by coordinate. -/
theorem broadcastIndex_of_length_eq {small i : List ℕ} (hlen : small.length = i.length) :
    broadcastIndex small i = List.zipWith (fun d k => if d = 1 then 0 else k) small i := by
  rw [broadcastIndex, hlen, Nat.sub_self, List.drop_zero]

/-- Reading through a shape between the two. -/
theorem BroadcastsTo.broadcastIndex_trans {small mid i : List ℕ} (h : BroadcastsTo small mid)
    (hle : mid.length ≤ i.length) :
    broadcastIndex small (broadcastIndex mid i) = broadcastIndex small i := by
  obtain ⟨hsmall, hdim⟩ := broadcastsTo_iff_getD.mp h
  have hmid := length_broadcastIndex hle
  have hsmall' : small.length ≤ (broadcastIndex mid i).length := hmid.symm ▸ hsmall
  refine ext_getD (by rw [length_broadcastIndex hsmall', length_broadcastIndex (hsmall.trans hle)])
    fun axis haxis => ?_
  rw [length_broadcastIndex hsmall'] at haxis
  rw [getD_broadcastIndex hsmall' haxis, getD_broadcastIndex (hsmall.trans hle) haxis, hmid]
  split_ifs with hone
  · rfl
  · have hmidDim : mid.getD (mid.length - small.length + axis) 0 ≠ 1 := by
      rcases hdim axis haxis with heq | hone'
      · exact heq ▸ hone
      · exact absurd hone' hone
    rw [getD_broadcastIndex hle (by omega), if_neg hmidDim,
      show i.length - mid.length + (mid.length - small.length + axis) =
        i.length - small.length + axis by omega]

/-- Positions of the large array read positions of the small one. -/
theorem BroadcastsTo.inBounds {small big i : List ℕ} (h : BroadcastsTo small big)
    (hi : InBounds i big) : InBounds (broadcastIndex small i) small := by
  obtain ⟨hle, hdim⟩ := broadcastsTo_iff_getD.mp h
  have hlen := hi.length_eq
  refine inBounds_iff_getD.mpr ⟨length_broadcastIndex (hlen ▸ hle), fun axis haxis => ?_⟩
  rw [getD_broadcastIndex (hlen ▸ hle) haxis]
  split_ifs with hone
  · rw [hone]
    exact Nat.zero_lt_one
  · have hlt := hi.getD_lt (show big.length - small.length + axis < big.length by omega)
    rw [hlen]
    rcases hdim axis haxis with heq | hone'
    · rwa [heq]
    · exact absurd hone' hone

/-- A shape of the large rank reads positions of its own. -/
theorem broadcastIndex_self {shape i : List ℕ} (hi : InBounds i shape) :
    broadcastIndex shape i = i := by
  have hlen := hi.length_eq
  refine ext_getD (by rw [length_broadcastIndex hlen.symm.le, hlen]) fun axis haxis => ?_
  rw [length_broadcastIndex hlen.symm.le] at haxis
  have hlt := hi.getD_lt haxis
  rw [getD_broadcastIndex hlen.symm.le haxis, hlen, Nat.sub_self, Nat.zero_add]
  split_ifs with hone
  · omega
  · rfl

theorem mapsBox_broadcast {small big : List ℕ} (h : BroadcastsTo small big) :
    MapsBox big small fun i => some (broadcastIndex small i) := by
  intro i hi j hj
  rw [← Option.some.inj hj]
  exact h.inBounds hi

end Arrays
