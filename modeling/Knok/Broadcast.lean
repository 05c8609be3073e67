import Mathlib
import Knok.Ops
import Knok.Control.Checked
import Knok.Arrays.Broadcast

/-!
# The broadcast rule

`broadcastShapeSlices` joins two shapes dimension by dimension.  What it computes
in terms of broadcasting: both shapes broadcast to the result, and it is the
second shape itself exactly when the first broadcasts to it.
-/

namespace Knok

open Arrays Control

theorem dimFromTrailing_eq_none {shape : List ℕ} {rank offset : ℕ}
    (h : offset < rank - shape.length) : dimFromTrailing shape rank offset = none :=
  if_neg (by omega)

theorem dimFromTrailing_eq_some {shape : List ℕ} {rank offset : ℕ}
    (h : rank - shape.length ≤ offset) (hlt : offset < rank) (hle : shape.length ≤ rank) :
    dimFromTrailing shape rank offset =
      some (shape.getD (offset - (rank - shape.length)) 0) := by
  have hbound : offset - (rank - shape.length) < shape.length := by omega
  rw [dimFromTrailing, if_pos h, List.getElem?_eq_getElem hbound,
    List.getD_eq_getElem _ _ hbound]

/-- The joined shape, dimension by dimension. -/
theorem broadcastShapeSlices_eq_ok_iff {lhs rhs shape : List ℕ} :
    broadcastShapeSlices lhs rhs = .ok shape ↔
      shape.length = max lhs.length rhs.length ∧
        ∀ offset < max lhs.length rhs.length,
          broadcastDim offset (dimFromTrailing lhs (max lhs.length rhs.length) offset)
            (dimFromTrailing rhs (max lhs.length rhs.length) offset) =
              .ok (shape.getD offset 0) := by
  unfold broadcastShapeSlices
  rw [except_mapM_eq_ok_iff, List.forall₂_iff_get]
  constructor
  · rintro ⟨hlen, h⟩
    rw [List.length_range] at hlen
    refine ⟨hlen.symm, fun offset hoffset => ?_⟩
    have hdim := h offset (by rwa [List.length_range]) (hlen ▸ hoffset)
    rw [List.get_eq_getElem, List.getElem_range] at hdim
    rw [List.getD_eq_getElem _ _ (hlen ▸ hoffset)]
    exact hdim
  · rintro ⟨hlen, h⟩
    refine ⟨by rw [List.length_range]; exact hlen.symm, fun offset hoffset hoffset' => ?_⟩
    have hdim := h offset (by rwa [List.length_range] at hoffset)
    rw [List.getD_eq_getElem _ _ hoffset'] at hdim
    rw [List.get_eq_getElem, List.getElem_range]
    exact hdim

theorem broadcastDim_some_eq_ok_iff {offset d e dim : ℕ} :
    broadcastDim offset (some d) (some e) = .ok dim ↔
      d = dim ∧ e = dim ∨ d = 1 ∧ e = dim ∨ d = dim ∧ e = 1 := by
  simp only [broadcastDim]
  split_ifs with h₁ h₂ h₃
  · subst h₁
    simp only [Except.ok.injEq]
    omega
  · simp only [Except.ok.injEq]
    omega
  · simp only [Except.ok.injEq]
    omega
  · simp only [false_iff]
    omega

/-- The operands in the other order. -/
theorem broadcastShapeSlices_comm {lhs rhs shape : List ℕ}
    (h : broadcastShapeSlices lhs rhs = .ok shape) : broadcastShapeSlices rhs lhs = .ok shape := by
  obtain ⟨hlen, hdims⟩ := broadcastShapeSlices_eq_ok_iff.mp h
  refine broadcastShapeSlices_eq_ok_iff.mpr ⟨by rw [hlen, max_comm], fun offset hoffset => ?_⟩
  rw [max_comm rhs.length lhs.length] at hoffset ⊢
  have hdim := hdims offset hoffset
  revert hdim
  cases dimFromTrailing lhs (max lhs.length rhs.length) offset <;>
    cases dimFromTrailing rhs (max lhs.length rhs.length) offset
  · exact id
  · exact id
  · exact id
  · rw [broadcastDim_some_eq_ok_iff, broadcastDim_some_eq_ok_iff]
    omega

theorem mem_of_dimFromTrailing {shape : List ℕ} {rank offset dim : ℕ}
    (h : dimFromTrailing shape rank offset = some dim) : dim ∈ shape := by
  rw [dimFromTrailing] at h
  split_ifs at h
  exact List.mem_of_getElem? h

/-- The dimensions of the joined shape are the operands'. -/
theorem mem_of_broadcastShapeSlices {lhs rhs shape : List ℕ}
    (h : broadcastShapeSlices lhs rhs = .ok shape) {dim : ℕ} (hmem : dim ∈ shape) :
    dim ∈ lhs ∨ dim ∈ rhs := by
  obtain ⟨hlen, hdims⟩ := broadcastShapeSlices_eq_ok_iff.mp h
  obtain ⟨offset, hoffset, rfl⟩ := List.mem_iff_getElem.mp hmem
  have hdim := hdims offset (hlen ▸ hoffset)
  rw [List.getD_eq_getElem _ _ hoffset] at hdim
  generalize shape[offset] = dim at hdim
  cases hl : dimFromTrailing lhs (max lhs.length rhs.length) offset with
  | none =>
      cases hr : dimFromTrailing rhs (max lhs.length rhs.length) offset with
      | none => rw [hl, hr] at hdim; cases hdim
      | some e =>
          rw [hl, hr] at hdim
          cases hdim
          exact .inr (mem_of_dimFromTrailing hr)
  | some d =>
      cases hr : dimFromTrailing rhs (max lhs.length rhs.length) offset with
      | none =>
          rw [hl, hr] at hdim
          cases hdim
          exact .inl (mem_of_dimFromTrailing hl)
      | some e =>
          rw [hl, hr, broadcastDim_some_eq_ok_iff] at hdim
          rcases hdim with ⟨rfl, -⟩ | ⟨-, rfl⟩ | ⟨rfl, -⟩
          · exact .inl (mem_of_dimFromTrailing hl)
          · exact .inr (mem_of_dimFromTrailing hr)
          · exact .inl (mem_of_dimFromTrailing hl)

/-- **Both operands broadcast to the joined shape.** -/
theorem broadcastsTo_of_broadcastShapeSlices {lhs rhs shape : List ℕ}
    (h : broadcastShapeSlices lhs rhs = .ok shape) :
    BroadcastsTo lhs shape ∧ BroadcastsTo rhs shape := by
  obtain ⟨hlen, hdims⟩ := broadcastShapeSlices_eq_ok_iff.mp h
  have hboth : ∀ axis < shape.length,
      (shape.length - lhs.length ≤ axis →
        lhs.getD (axis - (shape.length - lhs.length)) 0 = shape.getD axis 0 ∨
          lhs.getD (axis - (shape.length - lhs.length)) 0 = 1) ∧
      (shape.length - rhs.length ≤ axis →
        rhs.getD (axis - (shape.length - rhs.length)) 0 = shape.getD axis 0 ∨
          rhs.getD (axis - (shape.length - rhs.length)) 0 = 1) := by
    intro axis haxis
    have hdim := hdims axis (hlen ▸ haxis)
    rw [← hlen] at hdim
    rcases Nat.lt_or_ge axis (shape.length - lhs.length) with hl | hl <;>
      rcases Nat.lt_or_ge axis (shape.length - rhs.length) with hr | hr
    · omega
    · rw [dimFromTrailing_eq_none hl, dimFromTrailing_eq_some hr haxis (by omega)] at hdim
      exact ⟨fun h => absurd h (by omega), fun _ => .inl (Except.ok.inj hdim)⟩
    · rw [dimFromTrailing_eq_none hr, dimFromTrailing_eq_some hl haxis (by omega)] at hdim
      exact ⟨fun _ => .inl (Except.ok.inj hdim), fun h => absurd h (by omega)⟩
    · rw [dimFromTrailing_eq_some hl haxis (by omega),
        dimFromTrailing_eq_some hr haxis (by omega), broadcastDim_some_eq_ok_iff] at hdim
      exact ⟨fun _ => by omega, fun _ => by omega⟩
  constructor
  · refine broadcastsTo_iff_getD.mpr ⟨by omega, fun axis haxis => ?_⟩
    have hdim := (hboth (shape.length - lhs.length + axis) (by omega)).1 (by omega)
    rwa [Nat.add_sub_cancel_left] at hdim
  · refine broadcastsTo_iff_getD.mpr ⟨by omega, fun axis haxis => ?_⟩
    have hdim := (hboth (shape.length - rhs.length + axis) (by omega)).2 (by omega)
    rwa [Nat.add_sub_cancel_left] at hdim

/-- **The joined shape is the second operand's exactly when the first
broadcasts to it.** -/
theorem broadcastShapeSlices_eq_right_iff {small big : List ℕ} :
    broadcastShapeSlices small big = .ok big ↔ BroadcastsTo small big := by
  constructor
  · exact fun h => (broadcastsTo_of_broadcastShapeSlices h).1
  · intro h
    obtain ⟨hle, hdim⟩ := broadcastsTo_iff_getD.mp h
    refine broadcastShapeSlices_eq_ok_iff.mpr ⟨by omega, fun offset hoffset => ?_⟩
    have hrank : max small.length big.length = big.length := max_eq_right hle
    rw [hrank] at hoffset ⊢
    rw [@dimFromTrailing_eq_some big _ _ (by omega) hoffset le_rfl, Nat.sub_self,
      Nat.sub_zero]
    rcases Nat.lt_or_ge offset (big.length - small.length) with hlt | hge
    · rw [dimFromTrailing_eq_none hlt]
      rfl
    · rw [dimFromTrailing_eq_some hge hoffset hle, broadcastDim_some_eq_ok_iff]
      have hd := hdim (offset - (big.length - small.length)) (by omega)
      rw [Nat.add_sub_cancel' hge] at hd
      omega

/-- Operands that broadcast to one shape can be joined, and the joined shape
broadcasts to it too. -/
theorem exists_joined {lhs rhs big : List ℕ} (hl : BroadcastsTo lhs big)
    (hr : BroadcastsTo rhs big) :
    ∃ shape, broadcastShapeSlices lhs rhs = .ok shape ∧ BroadcastsTo shape big := by
  obtain ⟨hlle, hldim⟩ := broadcastsTo_iff_getD.mp hl
  obtain ⟨hrle, hrdim⟩ := broadcastsTo_iff_getD.mp hr
  have hrank : max lhs.length rhs.length ≤ big.length := max_le hlle hrle
  have hdims : ∀ offset < max lhs.length rhs.length, ∃ dim,
      broadcastDim offset (dimFromTrailing lhs (max lhs.length rhs.length) offset)
        (dimFromTrailing rhs (max lhs.length rhs.length) offset) = .ok dim ∧
      (dim = big.getD (big.length - max lhs.length rhs.length + offset) 0 ∨ dim = 1) := by
    intro offset hoffset
    -- both shapes end where the large one ends
    have hback : ∀ shape : List ℕ, shape.length ≤ max lhs.length rhs.length →
        max lhs.length rhs.length - shape.length ≤ offset →
        (∀ axis < shape.length,
          shape.getD axis 0 = big.getD (big.length - shape.length + axis) 0 ∨
            shape.getD axis 0 = 1) →
        ∃ dim, dimFromTrailing shape (max lhs.length rhs.length) offset = some dim ∧
          (dim = big.getD (big.length - max lhs.length rhs.length + offset) 0 ∨ dim = 1) := by
      intro shape hle hge hdim
      refine ⟨_, dimFromTrailing_eq_some hge hoffset hle, ?_⟩
      have hd := hdim (offset - (max lhs.length rhs.length - shape.length)) (by omega)
      rwa [show big.length - shape.length + (offset - (max lhs.length rhs.length - shape.length)) =
        big.length - max lhs.length rhs.length + offset by omega] at hd
    rcases Nat.lt_or_ge offset (max lhs.length rhs.length - lhs.length) with hlt | hge
    · obtain ⟨dim, hdim, hbig⟩ := hback rhs (le_max_right _ _) (by omega) hrdim
      rw [dimFromTrailing_eq_none hlt, hdim]
      exact ⟨dim, rfl, hbig⟩
    obtain ⟨d, hd, hdbig⟩ := hback lhs (le_max_left _ _) hge hldim
    rcases Nat.lt_or_ge offset (max lhs.length rhs.length - rhs.length) with hlt' | hge'
    · rw [dimFromTrailing_eq_none hlt', hd]
      exact ⟨d, rfl, hdbig⟩
    obtain ⟨e, he, hebig⟩ := hback rhs (le_max_right _ _) hge' hrdim
    rw [hd, he]
    rcases hdbig with hdbig | rfl
    · exact ⟨d, broadcastDim_some_eq_ok_iff.mpr (by omega), .inl hdbig⟩
    · exact ⟨e, broadcastDim_some_eq_ok_iff.mpr (.inr (.inl ⟨rfl, rfl⟩)), hebig⟩
  choose! dim hdim hbig using hdims
  have hlen : ((List.range (max lhs.length rhs.length)).map dim).length =
      max lhs.length rhs.length := by simp
  refine ⟨(List.range (max lhs.length rhs.length)).map dim,
    broadcastShapeSlices_eq_ok_iff.mpr ⟨hlen, fun offset hoffset => ?_⟩,
    broadcastsTo_iff_getD.mpr ⟨hlen.symm ▸ hrank, fun axis haxis => ?_⟩⟩
  · rw [getD_map_range _ hoffset]
    exact hdim offset hoffset
  · rw [hlen] at haxis ⊢
    rw [getD_map_range _ haxis]
    exact hbig axis haxis

theorem broadcastOr_eq_ok_iff {text : String} {lhs rhs ty : TensorType} {elem : ElementType} :
    broadcastOr text lhs rhs elem = .ok ty ↔
      ty.elem = elem ∧ broadcastShapeSlices lhs.shape rhs.shape = .ok ty.shape := by
  obtain ⟨elem', shape⟩ := ty
  unfold broadcastOr broadcastShape
  cases broadcastShapeSlices lhs.shape rhs.shape <;> simp [eq_comm]

end Knok
