import Mathlib
import Knok.Arrays.Gather

/-!
# Layouts

Index maps of the operations that rearrange an array: slices and windows,
changes of one coordinate, permutations of axes.
-/

namespace Arrays

/-! ## Slices and windows -/

/-- A position moved by an offset along every axis. -/
def shiftBy (offsets i : List ℕ) : List ℕ := List.zipWith (· + ·) offsets i

/-- The position inside a window of an array: nothing outside the window. -/
def window (offsets sizes : List ℕ) : IndexMap := fun j =>
  if List.Forall₂ (· ≤ ·) offsets j ∧ InBounds (List.zipWith (· - ·) j offsets) sizes then
    some (List.zipWith (· - ·) j offsets)
  else none

/-- The window lies inside the array. -/
def WindowFits (offsets sizes shape : List ℕ) : Prop :=
  offsets.length = shape.length ∧ sizes.length = shape.length ∧
    ∀ axis < shape.length, offsets.getD axis 0 + sizes.getD axis 0 ≤ shape.getD axis 0

instance (offsets sizes shape : List ℕ) : Decidable (WindowFits offsets sizes shape) :=
  inferInstanceAs (Decidable (_ ∧ _ ∧ _))

theorem length_shiftBy {offsets i : List ℕ} (hlen : offsets.length = i.length) :
    (shiftBy offsets i).length = i.length := by
  rw [shiftBy, List.length_zipWith, hlen, min_self]

theorem getD_shiftBy {offsets i : List ℕ} (hlen : offsets.length = i.length) (axis : ℕ) :
    (shiftBy offsets i).getD axis 0 = offsets.getD axis 0 + i.getD axis 0 := by
  rcases Nat.lt_or_ge axis offsets.length with hlt | hge
  · exact getD_zipWith _ hlen hlt
  · rw [getD_eq_zero_of_le (length_shiftBy hlen ▸ hlen ▸ hge), getD_eq_zero_of_le hge,
      getD_eq_zero_of_le (hlen ▸ hge)]

theorem shiftBy_zeros (i : List ℕ) : shiftBy (List.replicate i.length 0) i = i := by
  refine ext_getD (length_shiftBy (by simp)) fun axis _ => ?_
  rw [getD_shiftBy (by simp)]
  simp [List.getD_eq_getElem?_getD, List.getElem?_replicate]
  split <;> simp

/-- Positions of a window are positions of the array. -/
theorem WindowFits.inBounds {offsets sizes shape i : List ℕ} (h : WindowFits offsets sizes shape)
    (hi : InBounds i sizes) : InBounds (shiftBy offsets i) shape := by
  obtain ⟨hoffsets, hsizes, hfits⟩ := h
  have hlen := hi.length_eq
  refine inBounds_iff_getD.mpr ⟨?_, fun axis haxis => ?_⟩
  · rw [length_shiftBy (by omega)]
    omega
  · have hlt := hi.getD_lt (show axis < sizes.length by omega)
    have := hfits axis haxis
    rw [getD_shiftBy (by omega)]
    omega

/-- The window map inverts the shift. -/
theorem window_eq_some_iff {offsets sizes i j : List ℕ} (hlen : offsets.length = sizes.length) :
    window offsets sizes j = some i ↔ InBounds i sizes ∧ j = shiftBy offsets i := by
  unfold window
  constructor
  · intro h
    split_ifs at h with hin
    · obtain ⟨hle, hbound⟩ := hin
      rw [Option.some.injEq] at h
      subst h
      refine ⟨hbound, ?_⟩
      obtain ⟨hjlen, hle⟩ := (List.forall₂_iff_get.mp hle)
      have hdiff : (List.zipWith (· - ·) j offsets).length = j.length := by
        rw [List.length_zipWith, hjlen, min_self]
      refine ext_getD (by rw [length_shiftBy (by omega), hdiff]) fun axis haxis => ?_
      rw [getD_shiftBy (by omega), getD_zipWith _ hjlen.symm haxis]
      have hle' := hle axis (hjlen ▸ haxis) haxis
      rw [List.get_eq_getElem, List.get_eq_getElem, ← List.getD_eq_getElem _ 0,
        ← List.getD_eq_getElem _ 0] at hle'
      exact (Nat.add_sub_cancel' hle').symm
  · rintro ⟨hi, rfl⟩
    have hilen := hi.length_eq
    have hsub : List.zipWith (· - ·) (shiftBy offsets i) offsets = i := by
      have hslen := length_shiftBy (show offsets.length = i.length by omega)
      refine ext_getD (by rw [List.length_zipWith, hslen]; omega) fun axis haxis => ?_
      rw [List.length_zipWith, hslen] at haxis
      rw [getD_zipWith _ (by omega) (by omega), getD_shiftBy (by omega)]
      omega
    have hle : List.Forall₂ (· ≤ ·) offsets (shiftBy offsets i) := by
      refine List.forall₂_iff_get.mpr ⟨by rw [length_shiftBy (by omega)]; omega,
        fun axis haxis haxis' => ?_⟩
      rw [List.get_eq_getElem, List.get_eq_getElem, ← List.getD_eq_getElem _ 0 haxis,
        ← List.getD_eq_getElem _ 0 haxis', getD_shiftBy (by omega)]
      exact Nat.le_add_right _ _
    rw [hsub, if_pos ⟨hle, hi⟩]

theorem window_shiftBy {offsets sizes i : List ℕ} (hlen : offsets.length = sizes.length)
    (hi : InBounds i sizes) : window offsets sizes (shiftBy offsets i) = some i :=
  (window_eq_some_iff hlen).mpr ⟨hi, rfl⟩

/-- **Padding and slicing are adjoint.** -/
theorem inner_pull_window {R : Type*} [CommSemiring R] {offsets sizes shape : List ℕ}
    (h : WindowFits offsets sizes shape) (x g : List ℕ → R) :
    inner shape (pull (window offsets sizes) x) g =
      inner sizes x fun j => g (shiftBy offsets j) := by
  have hlen : offsets.length = sizes.length := h.1.trans h.2.1.symm
  have hmaps : MapsBox shape sizes (window offsets sizes) :=
    fun i _ j hj => ((window_eq_some_iff hlen).mp hj).1
  have hback : MapsBox sizes shape fun j => some (shiftBy offsets j) := by
    intro j hj i hi
    cases hi
    exact h.inBounds hj
  rw [inner_pull hmaps]
  refine inner_congr (fun _ _ => rfl) fun j hj => ?_
  refine (push_eq_pull (fun i j hi hj => ?_) hback g hj).trans rfl
  rw [window_eq_some_iff hlen, Option.some.injEq]
  constructor
  · exact fun hin => hin.2.symm
  · exact fun heq => ⟨hj, heq.symm⟩

/-! ## Windows along one axis -/

/-- An offset along one axis. -/
def axisOffsets (rank axis start : ℕ) : List ℕ := (List.replicate rank 0).set axis start

@[simp] theorem length_axisOffsets (rank axis start : ℕ) :
    (axisOffsets rank axis start).length = rank := by
  rw [axisOffsets, List.length_set, List.length_replicate]

theorem getD_axisOffsets {rank axis : ℕ} (haxis : axis < rank) (start other : ℕ) :
    (axisOffsets rank axis start).getD other 0 = if other = axis then start else 0 := by
  rw [axisOffsets, getD_set, List.length_replicate]
  have hzero : (List.replicate rank 0).getD other 0 = 0 := by
    rw [List.getD_eq_getElem?_getD, List.getElem?_replicate]
    split <;> rfl
  rw [hzero]
  exact if_congr (and_iff_left haxis) rfl rfl

theorem axisOffsets_zero (rank axis : ℕ) : axisOffsets rank axis 0 = List.replicate rank 0 :=
  List.set_replicate_self

theorem shiftBy_axisOffsets {i : List ℕ} {axis : ℕ} (haxis : axis < i.length) (start : ℕ) :
    shiftBy (axisOffsets i.length axis start) i = i.set axis (start + i.getD axis 0) := by
  have hlen : (axisOffsets i.length axis start).length = i.length := length_axisOffsets _ _ _
  refine ext_getD (by rw [length_shiftBy hlen, List.length_set]) fun other _ => ?_
  rw [getD_shiftBy hlen, getD_axisOffsets haxis, getD_set]
  split_ifs with heq h h
  · rw [heq]
  · exact absurd ⟨heq, haxis⟩ h
  · exact absurd h.1 heq
  · rw [Nat.zero_add]

theorem windowFits_axisOffsets {shape : List ℕ} {axis start size : ℕ}
    (haxis : axis < shape.length) (hle : start + size ≤ shape.getD axis 0) :
    WindowFits (axisOffsets shape.length axis start) (shape.set axis size) shape := by
  refine ⟨length_axisOffsets _ _ _, List.length_set, fun other hother => ?_⟩
  rw [getD_axisOffsets haxis, getD_set]
  split_ifs with heq h h
  · rw [heq]
    exact hle
  · exact absurd ⟨heq, haxis⟩ h
  · exact absurd h.1 heq
  · rw [Nat.zero_add]

theorem set_getD_self (i : List ℕ) (axis : ℕ) : i.set axis (i.getD axis 0) = i := by
  refine ext_getD List.length_set fun k _ => ?_
  rw [getD_set]
  split_ifs with heq
  · rw [heq.1]
  · rfl

/-- Setting a coordinate back. -/
theorem set_set_self {i : List ℕ} {axis value : ℕ} (h : i.getD axis 0 = value) (other : ℕ) :
    (i.set axis other).set axis value = i := by
  rw [List.set_set, ← h, set_getD_self]

/-- Another coordinate along one axis. -/
theorem inBounds_set {shape i : List ℕ} {axis size value : ℕ} (hi : InBounds i (shape.set axis size))
    (hvalue : value < shape.getD axis 0) : InBounds (i.set axis value) shape := by
  have hset := @InBounds.set i (shape.set axis size) hi axis value _ hvalue
  rwa [List.set_set, set_getD_self] at hset

/-- A window along one axis, coordinate by coordinate. -/
theorem window_axisOffsets {shape i : List ℕ} {axis start size : ℕ} (hi : InBounds i shape)
    (haxis : axis < shape.length) :
    window (axisOffsets shape.length axis start) (shape.set axis size) i =
      if start ≤ i.getD axis 0 ∧ i.getD axis 0 < start + size then
        some (i.set axis (i.getD axis 0 - start)) else none := by
  have hlen := hi.length_eq
  have hoffsets : (axisOffsets shape.length axis start).length = (shape.set axis size).length := by
    rw [length_axisOffsets, List.length_set]
  split_ifs with hin
  · rw [window_eq_some_iff hoffsets]
    refine ⟨hi.set (by omega), ?_⟩
    have hrank : shape.length = (i.set axis (i.getD axis 0 - start)).length := by
      rw [List.length_set, hlen]
    rw [hrank, shiftBy_axisOffsets (by rw [List.length_set]; omega), getD_set,
      if_pos ⟨rfl, by omega⟩]
    exact (set_set_self (by omega) _).symm
  · refine Option.eq_none_iff_forall_ne_some.mpr fun j hj => hin ?_
    obtain ⟨hjb, rfl⟩ := (window_eq_some_iff hoffsets).mp hj
    have hjlen : j.length = shape.length := by
      rw [hjb.length_eq, List.length_set]
    have hlt := hjb.getD_lt (show axis < (shape.set axis size).length by
      rw [List.length_set]; exact haxis)
    rw [getD_set, if_pos ⟨rfl, haxis⟩] at hlt
    rw [← hjlen, shiftBy_axisOffsets (by omega), getD_set, if_pos ⟨rfl, by omega⟩]
    omega

/-- What arrives at a position when coordinates move along one axis: the
coordinates `ψ 0, …, ψ (count - 1)` are those that move to the position's. -/
theorem push_setAxis {R : Type*} [AddCommMonoid R] {shape j : List ℕ} {axis n count : ℕ} {φ ψ : ℕ → ℕ}
    (haxis : axis < shape.length) (hj : InBounds j shape)
    (hψ : ∀ k < count, ψ k < n ∧ φ (ψ k) = j.getD axis 0)
    (hinj : ∀ k < count, ∀ k' < count, ψ k = ψ k' → k = k')
    (hall : ∀ b < n, φ b = j.getD axis 0 → ∃ k < count, ψ k = b) (g : List ℕ → R) :
    push (shape.set axis n) (fun i => some (i.set axis (φ (i.getD axis 0)))) g j =
      ∑ k ∈ Finset.range count, g (j.set axis (ψ k)) := by
  have hjlen := hj.length_eq
  refine push_eq_sum ?_ ?_ ?_ g
  · intro k hk
    obtain ⟨hlt, hφ⟩ := hψ k (Finset.mem_range.mp hk)
    refine ⟨hj.set hlt, ?_⟩
    rw [getD_set_of_lt (by omega), if_pos rfl, hφ, List.set_set, set_getD_self]
  · intro k hk k' hk' heq
    have hcoord : (j.set axis (ψ k)).getD axis 0 = (j.set axis (ψ k')).getD axis 0 := by rw [heq]
    rw [getD_set_of_lt (by omega), getD_set_of_lt (by omega), if_pos rfl, if_pos rfl] at hcoord
    exact hinj k (Finset.mem_range.mp hk) k' (Finset.mem_range.mp hk') hcoord
  · intro i hi hsent
    have hilen : i.length = shape.length := by rw [hi.length_eq, List.length_set]
    have hcoord := hi.getD_lt (show axis < (shape.set axis n).length by rwa [List.length_set])
    rw [getD_set_of_lt haxis, if_pos rfl] at hcoord
    obtain rfl := Option.some.inj hsent
    rw [getD_set_of_lt (by omega), if_pos rfl] at hall
    obtain ⟨k, hk, hψk⟩ := hall _ hcoord rfl
    refine ⟨k, Finset.mem_range.mpr hk, ?_⟩
    rw [List.set_set, hψk, set_getD_self]

/-! ## Several axes in turn -/

/-- Changes the coordinates along some axes, one axis after the other. -/
def setAxes (φ : ℕ → ℕ → ℕ) (axes i : List ℕ) : List ℕ :=
  axes.foldl (fun i axis => i.set axis (φ axis (i.getD axis 0))) i

theorem setAxes_cons (φ : ℕ → ℕ → ℕ) (axis : ℕ) (axes i : List ℕ) :
    setAxes φ (axis :: axes) i = setAxes φ axes (i.set axis (φ axis (i.getD axis 0))) := rfl

theorem length_setAxes (φ : ℕ → ℕ → ℕ) (axes : List ℕ) :
    ∀ i : List ℕ, (setAxes φ axes i).length = i.length := by
  induction axes with
  | nil => exact fun _ => rfl
  | cons axis axes ih =>
      intro i
      rw [setAxes_cons, ih, List.length_set]

theorem getD_setAxes {φ : ℕ → ℕ → ℕ} {axes : List ℕ} (hnodup : axes.Nodup) {axis : ℕ} :
    ∀ {i : List ℕ}, axis < i.length → (setAxes φ axes i).getD axis 0 =
      if axis ∈ axes then φ axis (i.getD axis 0) else i.getD axis 0 := by
  induction axes with
  | nil => exact fun _ => rfl
  | cons first axes ih =>
      intro i haxis
      obtain ⟨hfirst, hnodup⟩ := List.nodup_cons.mp hnodup
      rw [setAxes_cons, ih hnodup (by rwa [List.length_set]), getD_set]
      by_cases heq : axis = first
      · subst heq
        rw [if_neg hfirst, if_pos ⟨rfl, haxis⟩, if_pos List.mem_cons_self]
      · simp only [List.mem_cons, heq, false_or, false_and, if_false]

/-! ## Pieces joined along one axis -/

/-- The entry of an array joined from pieces along an axis: the pieces with their
sizes, the coordinate along the axis, and the position. -/
def joined {R : Type*} (axis : ℕ) : List (ℕ × (List ℕ → R)) → ℕ → List ℕ → Option R
  | [], _, _ => none
  | (size, x) :: pieces, n, i =>
      if n < size then some (x (i.set axis n)) else joined axis pieces (n - size) i

theorem joined_cons {R : Type*} {axis size : ℕ} {x : List ℕ → R}
    {pieces : List (ℕ × (List ℕ → R))} {n : ℕ} {i : List ℕ} :
    joined axis ((size, x) :: pieces) n i =
      if n < size then some (x (i.set axis n)) else joined axis pieces (n - size) i := rfl

/-- Pieces of one size. -/
theorem joined_uniform {R : Type*} {axis size : ℕ} (hsize : 0 < size) (i : List ℕ) :
    ∀ (xs : List (List ℕ → R)) (n : ℕ), joined axis (xs.map (size, ·)) n i =
      (xs[n / size]?).map fun x => x (i.set axis (n % size)) := by
  intro xs
  induction xs with
  | nil => intro n; rfl
  | cons x xs ih =>
      intro n
      rw [List.map_cons, joined]
      split_ifs with hlt
      · rw [Nat.div_eq_of_lt hlt, Nat.mod_eq_of_lt hlt]
        rfl
      · have hdiv : n / size = (n - size) / size + 1 := by
          conv_lhs => rw [← Nat.sub_add_cancel (Nat.not_lt.mp hlt)]
          exact Nat.add_div_right _ hsize
        have hmod : n % size = (n - size) % size :=
          Nat.mod_eq_sub_mod (Nat.not_lt.mp hlt)
        rw [ih, hdiv, hmod, List.getElem?_cons_succ]

/-- Two pieces. -/
theorem joined_pair {R : Type*} {axis size size' : ℕ} (x y : List ℕ → R) {n : ℕ} (i : List ℕ)
    (hn : n < size + size') : joined axis [(size, x), (size', y)] n i =
      some (if n < size then x (i.set axis n) else y (i.set axis (n - size))) := by
  unfold joined
  split_ifs with hlt
  · rfl
  · rw [joined, if_pos (by omega)]

/-! ## Permutations of axes -/

/-- Position `i` of a transposed array: coordinate `k` of `i` is along axis
`axes[k]`. -/
def permutePosition (axes i : List ℕ) : List ℕ :=
  (List.range axes.length).map fun axis => i.getD (axes.idxOf axis) 0

section Permute

variable {axes i shape : List ℕ} {rank : ℕ}

theorem length_permutePosition : (permutePosition axes i).length = axes.length := by
  simp [permutePosition]

theorem getD_permutePosition {axis : ℕ} (haxis : axis < axes.length) :
    (permutePosition axes i).getD axis 0 = i.getD (axes.idxOf axis) 0 :=
  getD_map_range _ haxis

/-- Axes in order leave a position as it is. -/
theorem permutePosition_range (hlen : i.length = rank) :
    permutePosition (List.range rank) i = i := by
  subst hlen
  refine ext_getD (by simp [length_permutePosition]) fun axis haxis => ?_
  rw [length_permutePosition, List.length_range] at haxis
  have hidx := List.Nodup.idxOf_getElem (@List.nodup_range i.length) axis (by simpa using haxis)
  rw [List.getElem_range] at hidx
  rw [getD_permutePosition (by simpa using haxis), hidx]

theorem idxOf_lt_of_perm (hperm : axes.Perm (List.range rank)) {axis : ℕ} (haxis : axis < rank) :
    axes.idxOf axis < axes.length :=
  List.idxOf_lt_length_of_mem (hperm.mem_iff.mpr (List.mem_range.mpr haxis))

theorem getD_idxOf (hperm : axes.Perm (List.range rank)) {axis : ℕ} (haxis : axis < rank) :
    axes.getD (axes.idxOf axis) 0 = axis := by
  rw [List.getD_eq_getElem _ _ (idxOf_lt_of_perm hperm haxis), List.getElem_idxOf]

/-- Positions of the transposed array read positions of the array. -/
theorem inBounds_permutePosition (hperm : axes.Perm (List.range shape.length))
    (hi : InBounds i (axes.map fun axis => shape.getD axis 0)) :
    InBounds (permutePosition axes i) shape := by
  have hlen : axes.length = shape.length := by simpa using hperm.length_eq
  refine inBounds_iff_getD.mpr ⟨length_permutePosition.trans hlen, fun axis haxis => ?_⟩
  have hidx := idxOf_lt_of_perm hperm haxis
  have hlt := hi.getD_lt (show axes.idxOf axis < (axes.map fun axis => shape.getD axis 0).length by
    rwa [List.length_map])
  rw [getD_permutePosition (hlen ▸ haxis)]
  rw [List.getD_eq_getElem (axes.map _) _ (by rwa [List.length_map]), List.getElem_map,
    List.getElem_idxOf] at hlt
  exact hlt

end Permute

/-! ### Inverse permutations -/

/-- Distinct axes of an array, one for each, are a permutation of its axes. -/
theorem perm_range_of_nodup {axes : List ℕ} {rank : ℕ} (hlen : axes.length = rank)
    (hnodup : axes.Nodup) (hlt : ∀ axis ∈ axes, axis < rank) : axes.Perm (List.range rank) := by
  refine List.Subperm.perm_of_length_le ?_ (by simp [hlen])
  exact List.subperm_of_subset hnodup fun axis haxis => List.mem_range.mpr (hlt axis haxis)

/-- The second list of axes undoes the first. -/
structure InverseAxes (rank : ℕ) (axes inverse : List ℕ) : Prop where
  perm : axes.Perm (List.range rank)
  length_eq : inverse.length = rank
  getD_getD : ∀ axis < rank, inverse.getD (axes.getD axis 0) 0 = axis

namespace InverseAxes

variable {rank : ℕ} {axes inverse shape i j : List ℕ}

theorem getD_eq_idxOf (h : InverseAxes rank axes inverse) {axis : ℕ} (haxis : axis < rank) :
    inverse.getD axis 0 = axes.idxOf axis := by
  have hlen : axes.length = rank := h.perm.length_eq.trans List.length_range
  have hlt := idxOf_lt_of_perm h.perm haxis
  conv_lhs => rw [← getD_idxOf h.perm haxis]
  exact h.getD_getD _ (hlen ▸ hlt)

/-- Undoing on the other side. -/
theorem getD_getD' (h : InverseAxes rank axes inverse) {axis : ℕ} (haxis : axis < rank) :
    axes.getD (inverse.getD axis 0) 0 = axis := by
  rw [h.getD_eq_idxOf haxis, getD_idxOf h.perm haxis]

theorem symm (h : InverseAxes rank axes inverse) : InverseAxes rank inverse axes := by
  have hlen : axes.length = rank := h.perm.length_eq.trans List.length_range
  refine ⟨perm_range_of_nodup h.length_eq ?_ fun axis haxis => ?_, hlen,
    fun axis haxis => h.getD_getD' haxis⟩
  · refine List.nodup_iff_injective_get.mpr fun a b hab => Fin.ext ?_
    have ha := h.getD_getD' (a.isLt.trans_eq h.length_eq)
    have hb := h.getD_getD' (b.isLt.trans_eq h.length_eq)
    rw [List.getD_eq_getElem _ _ a.isLt] at ha
    rw [List.getD_eq_getElem _ _ b.isLt] at hb
    rw [← ha, ← hb]
    exact congrArg (axes.getD · 0) hab
  · obtain ⟨k, hk, rfl⟩ := List.mem_iff_getElem.mp haxis
    have hk' : k < rank := hk.trans_eq h.length_eq
    rw [← List.getD_eq_getElem _ 0 hk, h.getD_eq_idxOf hk', ← hlen]
    exact idxOf_lt_of_perm h.perm hk'

/-- Permuting back. -/
theorem permutePosition_permutePosition (h : InverseAxes rank axes inverse)
    (hi : i.length = rank) : permutePosition inverse (permutePosition axes i) = i := by
  have hlen : axes.length = rank := h.perm.length_eq.trans List.length_range
  refine ext_getD (by rw [length_permutePosition, h.length_eq, hi]) fun axis haxis => ?_
  rw [length_permutePosition, h.length_eq] at haxis
  have hidx : inverse.idxOf axis = axes.getD axis 0 := (h.symm.getD_eq_idxOf haxis).symm
  have hlt : axes.getD axis 0 < axes.length := by
    rw [hlen, ← hidx, ← h.length_eq]
    exact idxOf_lt_of_perm h.symm.perm haxis
  rw [getD_permutePosition (h.length_eq ▸ haxis), hidx, getD_permutePosition hlt,
    ← h.getD_eq_idxOf (hlen ▸ hlt), h.getD_getD axis haxis]

theorem permutePosition_eq_iff (h : InverseAxes rank axes inverse) (hi : i.length = rank)
    (hj : j.length = rank) : permutePosition axes i = j ↔ permutePosition inverse j = i := by
  constructor
  · rintro rfl
    exact h.permutePosition_permutePosition hi
  · rintro rfl
    exact h.symm.permutePosition_permutePosition hj

/-- The shape, permuted there and back. -/
theorem map_map_getD (h : InverseAxes rank axes inverse) (hshape : shape.length = rank) :
    (inverse.map fun axis => (axes.map fun axis => shape.getD axis 0).getD axis 0) = shape := by
  have hlen : axes.length = rank := h.perm.length_eq.trans List.length_range
  refine ext_getD (by rw [List.length_map, h.length_eq, hshape]) fun axis haxis => ?_
  rw [List.length_map] at haxis
  have haxis' : axis < rank := h.length_eq ▸ haxis
  have hlt : inverse.getD axis 0 < axes.length := by
    rw [h.getD_eq_idxOf haxis']
    exact idxOf_lt_of_perm h.perm haxis'
  have hmap : ∀ {list : List ℕ} {f : ℕ → ℕ} {k : ℕ}, k < list.length →
      (list.map f).getD k 0 = f (list.getD k 0) := by
    intro list f k hk
    rw [List.getD_eq_getElem _ _ (by rwa [List.length_map]), List.getElem_map,
      List.getD_eq_getElem _ _ hk]
  rw [hmap haxis, hmap hlt, h.getD_getD' haxis']

/-- A sum over positions, in another order of the axes. -/
theorem sum_box_permutePosition {M : Type*} [AddCommMonoid M] (h : InverseAxes rank axes inverse)
    (hshape : shape.length = rank) (f : List ℕ → M) :
    ∑ i ∈ box (axes.map fun axis => shape.getD axis 0), f (permutePosition axes i) =
      ∑ j ∈ box shape, f j := by
  have hlen : axes.length = rank := h.perm.length_eq.trans List.length_range
  refine Finset.sum_bij' (fun i _ => permutePosition axes i)
    (fun j _ => permutePosition inverse j) ?_ ?_ ?_ ?_ fun _ _ => rfl
  · intro i hi
    have hperm : axes.Perm (List.range shape.length) := hshape ▸ h.perm
    exact mem_box.mpr (inBounds_permutePosition hperm (mem_box.mp hi))
  · intro j hj
    refine mem_box.mpr (inBounds_permutePosition ?_ ?_)
    · rw [List.length_map, hlen]
      exact h.symm.perm
    · rw [h.map_map_getD hshape]
      exact mem_box.mp hj
  · intro i hi
    have hilen := (mem_box.mp hi).length_eq
    rw [List.length_map, hlen] at hilen
    exact h.permutePosition_permutePosition hilen
  · intro j hj
    exact h.symm.permutePosition_permutePosition ((mem_box.mp hj).length_eq.trans hshape)

end InverseAxes

/-! ## Flips -/

/-- A position counted from the other end along some axes. -/
def flipPosition (axes shape i : List ℕ) : List ℕ :=
  (List.range shape.length).map fun axis =>
    if axis ∈ axes then shape.getD axis 0 - 1 - i.getD axis 0 else i.getD axis 0

theorem getD_flipPosition {axes shape i : List ℕ} {axis : ℕ} (haxis : axis < shape.length) :
    (flipPosition axes shape i).getD axis 0 =
      if axis ∈ axes then shape.getD axis 0 - 1 - i.getD axis 0 else i.getD axis 0 :=
  getD_map_range _ haxis

theorem length_flipPosition (axes shape i : List ℕ) :
    (flipPosition axes shape i).length = shape.length := by
  simp [flipPosition]

theorem inBounds_flipPosition (axes : List ℕ) {shape i : List ℕ} (hi : InBounds i shape) :
    InBounds (flipPosition axes shape i) shape := by
  refine inBounds_iff_getD.mpr ⟨length_flipPosition _ _ _, fun axis haxis => ?_⟩
  have hlt := hi.getD_lt haxis
  rw [getD_flipPosition haxis]
  split_ifs <;> omega

theorem flipPosition_nil {shape i : List ℕ} (hi : InBounds i shape) :
    flipPosition [] shape i = i := by
  refine ext_getD (by rw [length_flipPosition, hi.length_eq]) fun axis haxis => ?_
  rw [length_flipPosition] at haxis
  rw [getD_flipPosition haxis, if_neg List.not_mem_nil]

/-- A flip undoes itself. -/
theorem flipPosition_flipPosition {axes shape i : List ℕ} (hi : InBounds i shape) :
    flipPosition axes shape (flipPosition axes shape i) = i := by
  refine ext_getD (by rw [length_flipPosition, hi.length_eq]) fun axis haxis => ?_
  rw [length_flipPosition] at haxis
  have hlt := hi.getD_lt haxis
  rw [getD_flipPosition haxis, getD_flipPosition haxis]
  split_ifs <;> omega

/-- One more axis. -/
theorem flipPosition_cons {axes shape i : List ℕ} {axis : ℕ} (haxis : axis < shape.length)
    (hnot : axis ∉ axes) :
    flipPosition (axis :: axes) shape i =
      (flipPosition axes shape i).set axis
        (shape.getD axis 0 - 1 - (flipPosition axes shape i).getD axis 0) := by
  refine ext_getD (by rw [List.length_set, length_flipPosition, length_flipPosition])
    fun other hother => ?_
  rw [length_flipPosition] at hother
  have hall := @getD_flipPosition (axis :: axes) shape i other hother
  rw [hall, getD_set, length_flipPosition, getD_flipPosition haxis, getD_flipPosition hother,
    if_neg hnot]
  by_cases heq : other = axis
  · rw [if_pos (show other = axis ∧ axis < shape.length from ⟨heq, haxis⟩), heq,
      if_pos List.mem_cons_self]
  · rw [if_neg (show ¬ (other = axis ∧ axis < shape.length) from fun h => heq h.1)]
    simp only [List.mem_cons, heq, false_or]

/-! ## Unit axes -/

/-- A unit axis does not change the number of a position. -/
theorem ravel_insertIdx_one {axis : ℕ} :
    ∀ {shape i : List ℕ}, axis ≤ shape.length → i.length = shape.length →
      ravel (shape.insertIdx axis 1) (i.insertIdx axis 0) = ravel shape i := by
  induction axis with
  | zero =>
      intro shape i _ _
      rw [List.insertIdx_zero, List.insertIdx_zero, ravel, zero_mul, zero_add]
  | succ axis ih =>
      intro shape i haxis hlen
      cases shape with
      | nil => simp at haxis
      | cons dim shape =>
          cases i with
          | nil => simp at hlen
          | cons k i =>
              rw [List.length_cons, List.length_cons, Nat.add_right_cancel_iff] at hlen
              rw [List.length_cons, Nat.add_le_add_iff_right] at haxis
              rw [List.insertIdx_succ_cons, List.insertIdx_succ_cons, ravel, ravel, ih haxis hlen,
                List.CommMonoid.prod_insertIdx haxis, one_mul]

/-- Taking out an axis and putting another one in its place. -/
theorem insertIdx_eraseIdx_self {i : List ℕ} {axis : ℕ} (haxis : axis < i.length) (value : ℕ) :
    (i.eraseIdx axis).insertIdx axis value = i.set axis value := by
  have hlen : (i.eraseIdx axis).length = i.length - 1 := by
    rw [List.length_eraseIdx, if_pos haxis]
  have hle : axis ≤ (i.eraseIdx axis).length := by omega
  refine ext_getD ?_ fun other _ => ?_
  · rw [List.length_insertIdx_of_le_length hle, List.length_set]
    omega
  · rw [getD_insertIdx hle, getD_set, getD_eraseIdx, getD_eraseIdx]
    split_ifs <;> first | rfl | omega | (congr 1; omega)

/-- Taking out a coordinate and putting it back. -/
theorem insertIdx_eraseIdx_of_getD {i : List ℕ} {axis : ℕ} (haxis : axis < i.length) :
    (i.eraseIdx axis).insertIdx axis (i.getD axis 0) = i := by
  rw [insertIdx_eraseIdx_self haxis, set_getD_self]

/-- Changing the coordinate that was put in. -/
theorem set_insertIdx_self {i : List ℕ} {axis : ℕ} (haxis : axis ≤ i.length) (value other : ℕ) :
    (i.insertIdx axis value).set axis other = i.insertIdx axis other := by
  have hlen := List.length_insertIdx_of_le_length (a := value) haxis
  rw [← insertIdx_eraseIdx_self (by omega), List.eraseIdx_insertIdx_self]

theorem getD_insertIdx_self {i : List ℕ} {axis : ℕ} (haxis : axis ≤ i.length) (value : ℕ) :
    (i.insertIdx axis value).getD axis 0 = value := by
  rw [getD_insertIdx haxis, if_neg (lt_irrefl _), if_pos rfl]

/-- A shape with a unit axis has as many elements as the shape without it. -/
theorem prod_set_one {shape : List ℕ} {axis : ℕ} (haxis : axis < shape.length) :
    (shape.set axis 1).prod = (shape.eraseIdx axis).prod := by
  have hle : axis ≤ (shape.eraseIdx axis).length := by
    rw [List.length_eraseIdx, if_pos haxis]
    omega
  rw [← insertIdx_eraseIdx_self haxis, List.CommMonoid.prod_insertIdx hle, one_mul]

/-- Reading an array with a unit axis from the array without it. -/
theorem unravel_eraseIdx_ravel_set_one {shape i : List ℕ} {axis : ℕ} (haxis : axis < shape.length)
    (hi : InBounds i (shape.set axis 1)) :
    unravel (shape.eraseIdx axis) (ravel (shape.set axis 1) i) = i.eraseIdx axis := by
  have hlen : i.length = shape.length := by rw [hi.length_eq, List.length_set]
  have hzero : i.getD axis 0 = 0 := by
    have := hi.getD_lt (show axis < (shape.set axis 1).length by rwa [List.length_set])
    rwa [getD_set_of_lt haxis, if_pos rfl, Nat.lt_one_iff] at this
  have hle : axis ≤ (shape.eraseIdx axis).length := by
    rw [List.length_eraseIdx, if_pos haxis]
    omega
  have hi' : InBounds (i.eraseIdx axis) (shape.eraseIdx axis) := by
    have := hi.eraseIdx axis
    rwa [List.eraseIdx_set_eq] at this
  have hravel := ravel_insertIdx_one hle hi'.length_eq
  rw [insertIdx_eraseIdx_self haxis, ← hzero, insertIdx_eraseIdx_of_getD (by omega)] at hravel
  rw [hravel, unravel_ravel hi']

/-! ## An axis taken apart -/

/-- An axis taken apart into two has as many elements. -/
theorem prod_insertIdx_succ (count : ℕ) {axis : ℕ} :
    ∀ {shape : List ℕ}, axis < shape.length →
      (shape.insertIdx (axis + 1) count).prod = (shape.set axis (shape.getD axis 0 * count)).prod := by
  induction axis with
  | zero =>
      intro shape haxis
      cases shape with
      | nil => simp at haxis
      | cons dim shape => simp [mul_assoc]
  | succ axis ih =>
      intro shape haxis
      cases shape with
      | nil => simp at haxis
      | cons dim shape =>
          rw [List.insertIdx_succ_cons, List.set_cons_succ, List.prod_cons, List.prod_cons,
            ih (by simpa using haxis), List.getD_cons_succ]

/-- A position of an axis taken apart. -/
theorem ravel_insertIdx_succ (count k : ℕ) {axis : ℕ} :
    ∀ {shape i : List ℕ}, axis < shape.length → i.length = shape.length →
      ravel (shape.insertIdx (axis + 1) count) (i.insertIdx (axis + 1) k) =
        ravel (shape.set axis (shape.getD axis 0 * count))
          (i.set axis (i.getD axis 0 * count + k)) := by
  induction axis with
  | zero =>
      intro shape i haxis hlen
      cases shape with
      | nil => simp at haxis
      | cons dim shape =>
          cases i with
          | nil => simp at hlen
          | cons a i =>
              show a * (count * shape.prod) + (k * shape.prod + ravel shape i) =
                (a * count + k) * shape.prod + ravel shape i
              ring
  | succ axis ih =>
      intro shape i haxis hlen
      cases shape with
      | nil => simp at haxis
      | cons dim shape =>
          cases i with
          | nil => simp at hlen
          | cons a i =>
              have haxis : axis < shape.length := by simpa using haxis
              rw [List.insertIdx_succ_cons, List.insertIdx_succ_cons, List.set_cons_succ,
                List.set_cons_succ, ravel, ravel, prod_insertIdx_succ count haxis,
                List.getD_cons_succ, List.getD_cons_succ, ih haxis (by simpa using hlen)]

end Arrays
