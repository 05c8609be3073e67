import Mathlib

/-!
# Positions of an array

An array of shape `[d₀, …, dₙ]` has a value at every position, a list of
coordinates with one below each dimension.  This file orders the positions
(row-major), numbers them (`ravel`, `unravel`) and sums over them.

### Design decisions

* **Positions are lists.**  A shape and a position are lists of numbers, so
  inserting, removing and permuting axes are the list operations.
* **Sums.**  `box shape` is the finite set of positions; sums over a box are
  taken apart along a leading axis (`sum_box_cons`), along a split of the axes
  (`sum_box_append`) or along any one axis (`sum_box_insertIdx`).
-/

namespace Arrays

/-! ## Positions -/

/-- Every coordinate is below its dimension. -/
abbrev InBounds (index shape : List ℕ) : Prop := List.Forall₂ (· < ·) index shape

/-- The positions of an array, in row-major order. -/
def positions : List ℕ → List (List ℕ)
  | [] => [[]]
  | dim :: shape => (List.range dim).flatMap fun i => (positions shape).map (i :: ·)

theorem mem_positions {index shape : List ℕ} :
    index ∈ positions shape ↔ InBounds index shape := by
  induction shape generalizing index with
  | nil => simp [positions, InBounds]
  | cons dim shape ih =>
      simp only [positions, List.mem_flatMap, List.mem_range, List.mem_map, InBounds]
      constructor
      · rintro ⟨i, hi, rest, hrest, rfl⟩
        exact .cons hi (ih.mp hrest)
      · intro h
        cases h with
        | cons hi hrest => exact ⟨_, hi, _, ih.mpr hrest, rfl⟩

theorem nodup_positions (shape : List ℕ) : (positions shape).Nodup := by
  induction shape with
  | nil => simp [positions]
  | cons dim shape ih =>
      rw [positions, List.nodup_flatMap]
      refine ⟨fun i _ => ih.map (List.cons_injective), ?_⟩
      refine List.nodup_range.imp fun {i j} hij => ?_
      intro index hi hj
      obtain ⟨rest, -, rfl⟩ := List.mem_map.mp hi
      obtain ⟨rest', -, heq⟩ := List.mem_map.mp hj
      exact hij (List.cons.inj heq).1.symm

theorem length_positions (shape : List ℕ) : (positions shape).length = shape.prod := by
  induction shape with
  | nil => rfl
  | cons dim shape ih => simp [positions, ih]

theorem InBounds.length_eq {index shape : List ℕ} (h : InBounds index shape) :
    index.length = shape.length :=
  List.Forall₂.length_eq h

theorem inBounds_iff_getD {index shape : List ℕ} :
    InBounds index shape ↔ index.length = shape.length ∧
      ∀ axis < shape.length, index.getD axis 0 < shape.getD axis 0 := by
  unfold InBounds
  rw [List.forall₂_iff_get]
  constructor
  · rintro ⟨hlen, h⟩
    refine ⟨hlen, fun axis haxis => ?_⟩
    have hlt := h axis (hlen ▸ haxis) haxis
    simpa [List.getD_eq_getElem, haxis, hlen ▸ haxis] using hlt
  · rintro ⟨hlen, h⟩
    refine ⟨hlen, fun axis haxis haxis' => ?_⟩
    have hlt := h axis haxis'
    simpa [List.getD_eq_getElem, haxis, haxis'] using hlt

theorem InBounds.getD_lt {index shape : List ℕ} (h : InBounds index shape) {axis : ℕ}
    (haxis : axis < shape.length) : index.getD axis 0 < shape.getD axis 0 :=
  (inBounds_iff_getD.mp h).2 axis haxis

theorem inBounds_append {index index' shape shape' : List ℕ} (h : InBounds index shape)
    (h' : InBounds index' shape') : InBounds (index ++ index') (shape ++ shape') :=
  List.rel_append h h'

/-! ### Coordinates -/

theorem getD_eq_zero_of_le {i : List ℕ} {axis : ℕ} (h : i.length ≤ axis) :
    i.getD axis 0 = 0 :=
  List.getD_eq_default _ _ h

/-- A list, rebuilt from its entries. -/
theorem map_getD_range (i : List ℕ) : (List.range i.length).map (fun axis => i.getD axis 0) = i := by
  refine List.ext_getElem (by simp) fun axis haxis haxis' => ?_
  rw [List.getElem_map, List.getElem_range, List.getD_eq_getElem _ _ haxis']

/-- Positions are equal when their coordinates are. -/
theorem ext_getD {i j : List ℕ} (hlen : i.length = j.length)
    (h : ∀ axis < i.length, i.getD axis 0 = j.getD axis 0) : i = j := by
  refine List.ext_getElem hlen fun axis haxis haxis' => ?_
  have heq := h axis haxis
  rwa [List.getD_eq_getElem _ _ haxis, List.getD_eq_getElem _ _ haxis'] at heq

theorem getD_set (i : List ℕ) (axis value other : ℕ) :
    (i.set axis value).getD other 0 =
      if other = axis ∧ axis < i.length then value else i.getD other 0 := by
  rw [List.getD_eq_getElem?_getD, List.getD_eq_getElem?_getD, List.getElem?_set]
  by_cases heq : axis = other
  · subst heq
    by_cases hlt : axis < i.length <;> simp [hlt]
  · rw [if_neg heq, if_neg fun h => heq h.1.symm]

theorem getD_set_of_lt {i : List ℕ} {axis : ℕ} (haxis : axis < i.length) (value other : ℕ) :
    (i.set axis value).getD other 0 = if other = axis then value else i.getD other 0 := by
  rw [getD_set]
  exact if_congr (and_iff_left haxis) rfl rfl

theorem getD_eraseIdx (i : List ℕ) (axis other : ℕ) :
    (i.eraseIdx axis).getD other 0 = i.getD (if other < axis then other else other + 1) 0 := by
  rw [List.getD_eq_getElem?_getD, List.getD_eq_getElem?_getD, List.getElem?_eraseIdx]
  split <;> rfl

theorem getD_insertIdx {i : List ℕ} {axis : ℕ} (haxis : axis ≤ i.length) (value other : ℕ) :
    (i.insertIdx axis value).getD other 0 =
      if other < axis then i.getD other 0
      else if other = axis then value else i.getD (other - 1) 0 := by
  rw [List.getD_eq_getElem?_getD, List.getD_eq_getElem?_getD, List.getElem?_insertIdx]
  split
  · rfl
  · split
    · subst_vars
      rw [if_pos haxis]
      rfl
    · rw [List.getD_eq_getElem?_getD]

theorem getD_zipWith (f : ℕ → ℕ → ℕ) {i j : List ℕ} (hlen : i.length = j.length) {axis : ℕ}
    (haxis : axis < i.length) :
    (List.zipWith f i j).getD axis 0 = f (i.getD axis 0) (j.getD axis 0) := by
  have haxis' : axis < j.length := hlen ▸ haxis
  have hzip : axis < (List.zipWith f i j).length := by
    rw [List.length_zipWith, ← hlen, min_self]
    exact haxis
  rw [List.getD_eq_getElem _ _ hzip, List.getElem_zipWith, List.getD_eq_getElem _ _ haxis,
    List.getD_eq_getElem _ _ haxis']

theorem getD_map_range (f : ℕ → ℕ) {count axis : ℕ} (haxis : axis < count) :
    ((List.range count).map f).getD axis 0 = f axis := by
  rw [List.getD_eq_getElem _ _ (by simpa using haxis), List.getElem_map, List.getElem_range]

/-- Inserting a coordinate between two runs. -/
theorem insertIdx_length_append (p s : List ℕ) (k : ℕ) :
    (p ++ s).insertIdx p.length k = p ++ k :: s := by
  induction p with
  | nil => rfl
  | cons first p ih =>
      rw [List.cons_append, List.length_cons, List.insertIdx_succ_cons, ih, List.cons_append]

/-- Changing a coordinate to one that is in bounds. -/
theorem InBounds.set {index shape : List ℕ} (h : InBounds index shape) {axis value dim : ℕ}
    (hvalue : value < dim) : InBounds (index.set axis value) (shape.set axis dim) := by
  obtain ⟨hlen, hlt⟩ := inBounds_iff_getD.mp h
  refine inBounds_iff_getD.mpr ⟨by simpa using hlen, fun other hother => ?_⟩
  have hother' : other < shape.length := by simpa using hother
  have := hlt other hother'
  rw [getD_set, getD_set, hlen]
  split <;> assumption

theorem InBounds.eraseIdx {index shape : List ℕ} (h : InBounds index shape) (axis : ℕ) :
    InBounds (index.eraseIdx axis) (shape.eraseIdx axis) := by
  obtain ⟨hlen, hlt⟩ := inBounds_iff_getD.mp h
  refine inBounds_iff_getD.mpr ⟨by simp [List.length_eraseIdx, hlen], fun other hother => ?_⟩
  rw [getD_eraseIdx, getD_eraseIdx]
  refine hlt _ ?_
  rw [List.length_eraseIdx] at hother
  split_ifs at hother ⊢ <;> omega

theorem InBounds.insertIdx {index shape : List ℕ} (h : InBounds index shape) {axis value dim : ℕ}
    (haxis : axis ≤ shape.length) (hvalue : value < dim) :
    InBounds (index.insertIdx axis value) (shape.insertIdx axis dim) := by
  obtain ⟨hlen, hlt⟩ := inBounds_iff_getD.mp h
  refine inBounds_iff_getD.mpr ⟨?_, fun other hother => ?_⟩
  · rw [List.length_insertIdx_of_le_length haxis,
      List.length_insertIdx_of_le_length (hlen ▸ haxis), hlen]
  · rw [List.length_insertIdx_of_le_length haxis] at hother
    rw [getD_insertIdx haxis, getD_insertIdx (hlen ▸ haxis)]
    split_ifs with h₁ h₂
    · exact hlt other (by omega)
    · exact hvalue
    · exact hlt (other - 1) (by omega)

/-! ## Numbering -/

/-- The row-major number of a position. -/
def ravel : List ℕ → List ℕ → ℕ
  | _ :: shape, i :: index => i * shape.prod + ravel shape index
  | _, _ => 0

/-- The position with a row-major number. -/
def unravel : List ℕ → ℕ → List ℕ
  | [], _ => []
  | _ :: shape, n => n / shape.prod :: unravel shape (n % shape.prod)

theorem ravel_lt {index shape : List ℕ} (h : InBounds index shape) :
    ravel shape index < shape.prod := by
  induction h with
  | nil => simp [ravel]
  | @cons i dim index shape hi hrest ih =>
      rw [ravel, List.prod_cons]
      calc i * shape.prod + ravel shape index
          < i * shape.prod + shape.prod := Nat.add_lt_add_left ih _
        _ = (i + 1) * shape.prod := by ring
        _ ≤ dim * shape.prod := Nat.mul_le_mul_right _ hi

theorem unravel_ravel {index shape : List ℕ} (h : InBounds index shape) :
    unravel shape (ravel shape index) = index := by
  induction h with
  | nil => rfl
  | @cons i dim index shape hi hrest ih =>
      have hlt := ravel_lt hrest
      have hpos : 0 < shape.prod := Nat.zero_lt_of_lt hlt
      rw [ravel, unravel, Nat.mul_comm, Nat.mul_add_div hpos, Nat.div_eq_of_lt hlt,
        Nat.mul_add_mod, Nat.mod_eq_of_lt hlt, ih, Nat.add_zero]

theorem inBounds_unravel {shape : List ℕ} :
    ∀ {n : ℕ}, n < shape.prod → InBounds (unravel shape n) shape := by
  induction shape with
  | nil => intro n _; exact .nil
  | cons dim shape ih =>
      intro n hn
      rw [List.prod_cons] at hn
      have hpos : 0 < shape.prod := by
        refine Nat.pos_of_ne_zero fun hzero => ?_
        rw [hzero, Nat.mul_zero] at hn
        exact absurd hn (Nat.not_lt_zero n)
      exact .cons ((Nat.div_lt_iff_lt_mul hpos).mpr hn) (ih (Nat.mod_lt _ hpos))

theorem ravel_unravel {shape : List ℕ} :
    ∀ {n : ℕ}, n < shape.prod → ravel shape (unravel shape n) = n := by
  induction shape with
  | nil =>
      intro n hn
      exact (Nat.lt_one_iff.mp hn).symm
  | cons dim shape ih =>
      intro n hn
      rw [List.prod_cons] at hn
      have hpos : 0 < shape.prod := by
        refine Nat.pos_of_ne_zero fun hzero => ?_
        rw [hzero, Nat.mul_zero] at hn
        exact absurd hn (Nat.not_lt_zero n)
      rw [unravel, ravel, ih (Nat.mod_lt _ hpos), Nat.mul_comm, Nat.div_add_mod]

/-- **The positions, numbered in order, are `0, 1, 2, …`.** -/
theorem map_ravel_positions (shape : List ℕ) :
    (positions shape).map (ravel shape) = List.range shape.prod := by
  induction shape with
  | nil => rfl
  | cons dim shape ih =>
      rw [positions, List.map_flatMap, List.prod_cons]
      have hrow : ∀ i, ((positions shape).map (i :: ·)).map (ravel (dim :: shape)) =
          (List.range shape.prod).map (i * shape.prod + ·) := by
        intro i
        rw [← ih, List.map_map, List.map_map]
        rfl
      simp only [hrow]
      clear ih hrow
      induction dim with
      | zero => simp
      | succ dim ihdim =>
          rw [List.range_succ, List.flatMap_append, ihdim, List.flatMap_singleton,
            Nat.succ_mul, List.range_add]

/-- Leaving out unit axes does not change the number of a position. -/
theorem ravel_filter {axes : List ℕ} {keep : ℕ → Bool} {dim coord : ℕ → ℕ}
    (h : ∀ axis ∈ axes, keep axis = false → dim axis = 1 ∧ coord axis = 0) :
    ((axes.filter keep).map dim).prod = (axes.map dim).prod ∧
      ravel ((axes.filter keep).map dim) ((axes.filter keep).map coord) =
        ravel (axes.map dim) (axes.map coord) := by
  induction axes with
  | nil => exact ⟨rfl, rfl⟩
  | cons axis axes ih =>
      obtain ⟨hprod, hravel⟩ := ih fun axis haxis => h axis (List.mem_cons_of_mem _ haxis)
      cases hkeep : keep axis with
      | false =>
          obtain ⟨hdim, hcoord⟩ := h axis List.mem_cons_self hkeep
          rw [List.filter_cons_of_neg (by simp [hkeep]), List.map_cons, List.map_cons,
            List.prod_cons, ravel, hdim, hcoord, one_mul, zero_mul, zero_add]
          exact ⟨hprod, hravel⟩
      | true =>
          rw [List.filter_cons_of_pos hkeep, List.map_cons, List.map_cons, List.map_cons,
            List.map_cons, List.prod_cons, List.prod_cons, ravel, ravel, hprod, hravel]
          exact ⟨rfl, rfl⟩

/-! ## Boxes -/

/-- The finite set of positions. -/
def box (shape : List ℕ) : Finset (List ℕ) := (positions shape).toFinset

@[simp] theorem mem_box {index shape : List ℕ} : index ∈ box shape ↔ InBounds index shape := by
  rw [box, List.mem_toFinset, mem_positions]

variable {M : Type*} [AddCommMonoid M]

@[simp] theorem sum_box_nil (f : List ℕ → M) : ∑ i ∈ box [], f i = f [] := by
  simp [box, positions]

theorem sum_box_cons (dim : ℕ) (shape : List ℕ) (f : List ℕ → M) :
    ∑ i ∈ box (dim :: shape), f i = ∑ k ∈ Finset.range dim, ∑ i ∈ box shape, f (k :: i) := by
  rw [Finset.sum_sigma']
  refine Finset.sum_bij' (fun i _ => ⟨i.headD 0, i.tail⟩) (fun p _ => p.1 :: p.2) ?_ ?_ ?_ ?_ ?_
  · intro i hi
    cases mem_box.mp hi with
    | cons hk hrest => exact Finset.mem_sigma.mpr ⟨Finset.mem_range.mpr hk, mem_box.mpr hrest⟩
  · rintro ⟨k, i⟩ hp
    obtain ⟨hk, hi⟩ := Finset.mem_sigma.mp hp
    exact mem_box.mpr (.cons (Finset.mem_range.mp hk) (mem_box.mp hi))
  · intro i hi
    cases mem_box.mp hi with
    | cons hk hrest => rfl
  · rintro ⟨k, i⟩ _
    rfl
  · intro i hi
    cases mem_box.mp hi with
    | cons hk hrest => rfl

theorem sum_box_append (shape shape' : List ℕ) (f : List ℕ → M) :
    ∑ i ∈ box (shape ++ shape'), f i = ∑ i ∈ box shape, ∑ j ∈ box shape', f (i ++ j) := by
  induction shape generalizing f with
  | nil => simp
  | cons dim shape ih =>
      rw [List.cons_append, sum_box_cons, sum_box_cons]
      exact Finset.sum_congr rfl fun k _ => ih fun i => f (k :: i)

/-- A sum over the positions of a shape with one more axis. -/
theorem sum_box_insertIdx (dim : ℕ) {axis : ℕ} :
    ∀ {shape : List ℕ}, axis ≤ shape.length → ∀ f : List ℕ → M,
      ∑ i ∈ box (shape.insertIdx axis dim), f i =
        ∑ i ∈ box shape, ∑ k ∈ Finset.range dim, f (i.insertIdx axis k) := by
  induction axis with
  | zero =>
      intro shape _ f
      rw [List.insertIdx_zero, sum_box_cons, Finset.sum_comm]
      simp
  | succ axis ih =>
      intro shape haxis f
      cases shape with
      | nil => simp at haxis
      | cons first shape =>
          rw [List.insertIdx_succ_cons, sum_box_cons, sum_box_cons]
          refine Finset.sum_congr rfl fun k _ => ?_
          rw [ih (by simpa using haxis)]
          simp

/-- A sum over positions that depends on their numbers only. -/
theorem sum_box_ravel (shape : List ℕ) (f : ℕ → M) :
    ∑ i ∈ box shape, f (ravel shape i) = ∑ n ∈ Finset.range shape.prod, f n := by
  refine Finset.sum_bij' (fun i _ => ravel shape i) (fun n _ => unravel shape n) ?_ ?_ ?_ ?_ ?_
  · exact fun i hi => Finset.mem_range.mpr (ravel_lt (mem_box.mp hi))
  · exact fun n hn => mem_box.mpr (inBounds_unravel (Finset.mem_range.mp hn))
  · exact fun i hi => unravel_ravel (mem_box.mp hi)
  · exact fun n hn => ravel_unravel (Finset.mem_range.mp hn)
  · exact fun i _ => rfl

/-- A sum over numbers in blocks of one size. -/
theorem sum_range_mul (blocks size : ℕ) (f : ℕ → M) :
    ∑ n ∈ Finset.range (blocks * size), f n =
      ∑ block ∈ Finset.range blocks, ∑ k ∈ Finset.range size, f (block * size + k) := by
  have hravel := sum_box_ravel [blocks, size] f
  simp only [sum_box_cons, sum_box_nil, ravel, List.prod_cons, List.prod_nil, Nat.mul_one,
    Nat.add_zero] at hravel
  exact hravel.symm

end Arrays
