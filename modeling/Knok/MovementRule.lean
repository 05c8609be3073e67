import Mathlib
import Knok.Movement
import Knok.Control.Checked

/-!
# The type rules of data movement

What the rules accept, operation by operation.  The rules check dimensions in
loops over zipped lists; here they are read as statements about every dimension,
and then as the cases of `MovementTyped`.
-/

namespace Knok

open Arrays Control

/-! ## Permutations of axes -/

theorem getD_range {rank axis : ℕ} (haxis : axis < rank) : (List.range rank).getD axis 0 = axis := by
  rw [List.getD_eq_getElem _ _ (by rwa [List.length_range]), List.getElem_range]

/-- Exchanging two axes is a permutation. -/
theorem swapDims_perm {rank axis0 axis1 : ℕ} (haxis0 : axis0 < rank) (haxis1 : axis1 < rank) :
    (swapDims (List.range rank) axis0 axis1).Perm (List.range rank) := by
  have h0 : axis0 < (List.range rank).length := by rwa [List.length_range]
  have h1 : axis1 < (List.range rank).length := by rwa [List.length_range]
  rw [swapDims, List.getD_eq_getElem _ _ h0, List.getD_eq_getElem _ _ h1]
  exact List.set_set_perm h0 h1

/-- A shape with two axes exchanged, read along the permutation. -/
theorem map_swapDims_range {shape : List ℕ} {axis0 axis1 : ℕ} (haxis0 : axis0 < shape.length)
    (haxis1 : axis1 < shape.length) :
    (swapDims (List.range shape.length) axis0 axis1).map (fun axis => shape.getD axis 0) =
      swapDims shape axis0 axis1 := by
  rw [swapDims, getD_range haxis0, getD_range haxis1, List.map_set, List.map_set, map_getD_range]
  rfl

/-- Moving an axis is a permutation. -/
theorem moveaxisAxes_perm {rank source destination : ℕ} (hsource : source < rank)
    (hdestination : destination < rank) :
    (moveaxisAxes rank source destination).Perm (List.range rank) := by
  have hlt : source < (List.range rank).length := by rwa [List.length_range]
  have hlen : ((List.range rank).eraseIdx source).length = rank - 1 := by
    rw [List.length_eraseIdx, if_pos hlt, List.length_range]
  have herase := List.getElem_cons_eraseIdx_perm hlt
  rw [List.getElem_range] at herase
  exact (List.perm_insertIdx source _ (by omega)).trans herase

/-- The axes, two of them exchanged. -/
theorem getD_swapDims_range {rank axis0 axis1 axis : ℕ} (haxis0 : axis0 < rank)
    (haxis1 : axis1 < rank) (haxis : axis < rank) :
    (swapDims (List.range rank) axis0 axis1).getD axis 0 =
      if axis = axis1 then axis0 else if axis = axis0 then axis1 else axis := by
  rw [swapDims, getD_set_of_lt (by simpa using haxis1), getD_set_of_lt (by simpa using haxis0),
    getD_range haxis0, getD_range haxis1, getD_range haxis]

/-- Exchanging two axes again. -/
theorem inverseAxes_swapDims {rank axis0 axis1 : ℕ} (haxis0 : axis0 < rank) (haxis1 : axis1 < rank) :
    InverseAxes rank (swapDims (List.range rank) axis0 axis1)
      (swapDims (List.range rank) axis0 axis1) := by
  refine ⟨swapDims_perm haxis0 haxis1, by simp [swapDims], fun axis haxis => ?_⟩
  rw [getD_swapDims_range haxis0 haxis1 haxis]
  split_ifs with h1 h0
  · rw [getD_swapDims_range haxis0 haxis1 haxis0]
    split_ifs <;> omega
  · rw [getD_swapDims_range haxis0 haxis1 haxis1, if_pos rfl, h0]
  · rw [getD_swapDims_range haxis0 haxis1 haxis, if_neg h1, if_neg h0]

/-- Moving an axis back. -/
theorem inverseAxes_moveaxisAxes {rank source destination : ℕ} (hsource : source < rank)
    (hdestination : destination < rank) :
    InverseAxes rank (moveaxisAxes rank source destination)
      (moveaxisAxes rank destination source) := by
  have hget : ∀ {source destination : ℕ}, source < rank → destination < rank → ∀ axis < rank,
      (moveaxisAxes rank source destination).getD axis 0 =
        if axis < destination then (if axis < source then axis else axis + 1)
        else if axis = destination then source
        else if axis - 1 < source then axis - 1 else axis := by
    intro source destination hsource hdestination axis haxis
    have hlen : destination ≤ ((List.range rank).eraseIdx source).length := by
      rw [List.length_eraseIdx, List.length_range, if_pos hsource]
      omega
    rw [moveaxisAxes, getD_insertIdx hlen, getD_eraseIdx, getD_eraseIdx]
    split_ifs <;> first | rfl | (rw [getD_range (by omega)] <;> omega)
  refine ⟨moveaxisAxes_perm hsource hdestination,
    (moveaxisAxes_perm hdestination hsource).length_eq.trans List.length_range,
    fun axis haxis => ?_⟩
  rw [hget hsource hdestination axis haxis]
  rw [hget hdestination hsource _ (by split_ifs <;> omega)]
  split_ifs <;> omega

/-! ## The checks -/

section Checks

theorem expectUnary_eq_ok_iff {op : CallOp} {tys : List TensorType} {ty : TensorType} :
    expectUnary op tys = .ok ty ↔ tys = [ty] := by
  unfold expectUnary
  split
  · simp [eq_comm]
  · rename_i h
    simp only [reduceCtorEq, false_iff]
    exact h ty

theorem expectBinary_eq_ok_iff {op : CallOp} {tys : List TensorType}
    {pair : TensorType × TensorType} :
    expectBinary op tys = .ok pair ↔ tys = [pair.1, pair.2] := by
  unfold expectBinary
  split
  · simp [Prod.ext_iff, eq_comm]
  · rename_i h
    simp only [reduceCtorEq, false_iff]
    exact h pair.1 pair.2

theorem expectTernary_eq_ok_iff {op : CallOp} {tys : List TensorType}
    {triple : TensorType × TensorType × TensorType} :
    expectTernary op tys = .ok triple ↔ tys = [triple.1, triple.2.1, triple.2.2] := by
  unfold expectTernary
  split
  · simp [Prod.ext_iff, eq_comm]
  · rename_i h
    simp only [reduceCtorEq, false_iff]
    exact h triple.1 triple.2.1 triple.2.2

theorem expectAxis_eq_ok_iff {input : TensorType} {axis : ℕ} {u : Unit} :
    expectAxis input axis = .ok u ↔ axis < input.rank := by
  unfold expectAxis
  split_ifs with h <;> simp [h]

/-- The accepted axis lists: in bounds, distinct and not seen before. -/
theorem checkAxes_eq_ok_iff {rank : ℕ} {outOfBounds : ℕ → Error} {duplicate : Error}
    {axes : List ℕ} : ∀ {seen : List ℕ} {u : Unit},
      checkAxes rank outOfBounds duplicate seen axes = .ok u ↔
        (∀ axis ∈ axes, axis < rank) ∧ axes.Nodup ∧ ∀ axis ∈ axes, axis ∉ seen := by
  induction axes with
  | nil => intro seen u; simp [checkAxes]
  | cons axis axes ih =>
      intro seen u
      unfold checkAxes
      split_ifs with hbound hseen
      · simp only [List.forall_mem_cons, false_iff]
        omega
      · simp only [List.forall_mem_cons, false_iff]
        tauto
      · rw [ih, List.forall_mem_cons, List.forall_mem_cons, List.nodup_cons]
        constructor
        · rintro ⟨hlt, hnodup, hnot⟩
          exact ⟨⟨Nat.not_le.mp hbound, hlt⟩,
            ⟨fun hmem => hnot axis hmem List.mem_cons_self, hnodup⟩, hseen,
            fun other hother hmem => hnot other hother (List.mem_cons_of_mem _ hmem)⟩
        · rintro ⟨⟨-, hlt⟩, ⟨hfresh, hnodup⟩, -, hnot⟩
          refine ⟨hlt, hnodup, fun other hother hmem => ?_⟩
          rcases List.mem_cons.mp hmem with rfl | hmem
          · exact hfresh hother
          · exact hnot other hother hmem

theorem checkSliceDims_eq_ok_iff {rows : List ((ℕ × ℕ) × ℕ)} : ∀ {axis : ℕ} {u : Unit},
    checkSliceDims axis rows = .ok u ↔ ∀ row ∈ rows, usizeAdd row.1.1 row.1.2 ≤ row.2 := by
  induction rows with
  | nil => intro axis u; simp [checkSliceDims]
  | cons row rows ih =>
      obtain ⟨⟨start, size⟩, inputDim⟩ := row
      intro axis u
      rw [List.forall_mem_cons, checkSliceDims]
      split_ifs with h
      · simp only [false_iff]
        omega
      · rw [ih, and_iff_right (Nat.not_lt.mp h)]

theorem checkPadDims_eq_ok_iff {rows : List ((ℕ × ℕ) × ℕ)} : ∀ {axis : ℕ} {u : Unit},
    checkPadDims axis rows = .ok u ↔ ∀ row ∈ rows, usizeAdd row.1.1 row.2 ≤ row.1.2 := by
  induction rows with
  | nil => intro axis u; simp [checkPadDims]
  | cons row rows ih =>
      obtain ⟨⟨inputDim, targetDim⟩, low⟩ := row
      intro axis u
      rw [List.forall_mem_cons, checkPadDims]
      split_ifs with h
      · simp only [false_iff]
        omega
      · rw [ih, and_iff_right (Nat.not_lt.mp h)]

/-- Three lists of one length, read together. -/
theorem forall_mem_zip_zip {a b c : List ℕ} (hab : a.length = b.length)
    (hbc : b.length = c.length) {p : ℕ → ℕ → ℕ → Prop} :
    (∀ row ∈ (a.zip b).zip c, p row.1.1 row.1.2 row.2) ↔
      ∀ axis < c.length, p (a.getD axis 0) (b.getD axis 0) (c.getD axis 0) := by
  constructor
  · intro h axis haxis
    have hlt : axis < ((a.zip b).zip c).length := by
      simp only [List.length_zip]
      omega
    have hmem : ((a.zip b).zip c)[axis] ∈ (a.zip b).zip c := List.getElem_mem _
    have hp := h _ hmem
    rw [List.getElem_zip, List.getElem_zip] at hp
    rw [List.getD_eq_getElem _ _ (by omega), List.getD_eq_getElem _ _ (by omega),
      List.getD_eq_getElem _ _ haxis]
    exact hp
  · intro h row hrow
    obtain ⟨axis, haxis, rfl⟩ := List.mem_iff_getElem.mp hrow
    have hlt : axis < c.length := by
      rw [List.length_zip] at haxis
      omega
    have hp := h axis hlt
    rw [List.getD_eq_getElem _ _ (by omega), List.getD_eq_getElem _ _ (by omega),
      List.getD_eq_getElem _ _ hlt] at hp
    rw [List.getElem_zip, List.getElem_zip]
    exact hp

/-- The joined shape of `concat`, dimension by dimension. -/
theorem concatDims_eq_ok_iff {axis : ℕ} {lhs : List ℕ} : ∀ {rhs shape : List ℕ} {dim : ℕ},
    lhs.length = rhs.length →
      (concatDims axis dim (lhs.zip rhs) = .ok shape ↔
        shape.length = lhs.length ∧ ∀ k < lhs.length,
          if dim + k = axis then shape.getD k 0 = usizeAdd (lhs.getD k 0) (rhs.getD k 0)
          else lhs.getD k 0 = rhs.getD k 0 ∧ shape.getD k 0 = lhs.getD k 0) := by
  induction lhs with
  | nil =>
      intro rhs shape dim _
      simp [concatDims, eq_comm]
  | cons lhsDim lhs ih =>
      intro rhs shape dim hlen
      cases rhs with
      | nil => simp at hlen
      | cons rhsDim rhs =>
          rw [List.length_cons, List.length_cons, Nat.add_right_cancel_iff] at hlen
          have hhead : ∀ {first : ℕ}, (∃ rest, concatDims axis (dim + 1) (lhs.zip rhs) = .ok rest ∧
              first :: rest = shape) ↔ shape.getD 0 0 = first ∧ shape.length = lhs.length + 1 ∧
                ∀ k < lhs.length, if dim + (k + 1) = axis
                  then shape.getD (k + 1) 0 = usizeAdd (lhs.getD k 0) (rhs.getD k 0)
                  else lhs.getD k 0 = rhs.getD k 0 ∧ shape.getD (k + 1) 0 = lhs.getD k 0 := by
            intro first
            constructor
            · rintro ⟨rest, hrest, rfl⟩
              obtain ⟨hrestLen, hdims⟩ := (ih hlen).mp hrest
              refine ⟨rfl, by rw [List.length_cons, hrestLen], fun k hk => ?_⟩
              have := hdims k hk
              rw [Nat.add_assoc, Nat.add_comm 1 k] at this
              exact this
            · rintro ⟨rfl, hshapeLen, hdims⟩
              cases shape with
              | nil => simp at hshapeLen
              | cons first rest =>
                  refine ⟨rest, (ih hlen).mpr ⟨by simpa using hshapeLen, fun k hk => ?_⟩, rfl⟩
                  have := hdims k hk
                  rw [Nat.add_assoc, Nat.add_comm 1 k]
                  exact this
          simp only [List.zip_cons_cons, concatDims, List.length_cons, Nat.forall_lt_succ_left,
            Nat.add_zero, List.getD_cons_zero, List.getD_cons_succ]
          by_cases haxis : dim = axis
          · simp only [if_pos haxis, except_bind_eq_ok_iff, except_pure_eq_ok_iff, hhead]
            tauto
          · by_cases heq : lhsDim = rhsDim
            · simp only [if_neg haxis, heq, ne_eq, not_true_eq_false, if_false,
                except_bind_eq_ok_iff, except_pure_eq_ok_iff, hhead]
              tauto
            · simp only [if_neg haxis, ne_eq, heq, not_false_eq_true, if_true, reduceCtorEq,
                false_and, and_false]

end Checks

/-! ## The rules -/

section Rules

variable {input target lhs rhs ty : TensorType} {axes : List ℕ} {axis : ℕ}

/-- **The check of `slice`**: starts and sizes are added up in 64 bits. -/
theorem validateSlice_eq_ok_iff_usize {starts : List ℕ} {u : Unit} :
    validateSlice input target starts = .ok u ↔
      input.elem = target.elem ∧ input.rank = target.rank ∧ starts.length = input.rank ∧
        ∀ axis < input.rank, usizeAdd (starts.getD axis 0) (target.dim axis) ≤ input.dim axis := by
  unfold validateSlice
  simp only [except_bind_eq_ok_iff, failIf_eq_ok_iff, exists_const, bne_eq_false_iff_eq,
    Bool.or_eq_false_iff, checkSliceDims_eq_ok_iff, and_assoc]
  refine and_congr_right fun _ => and_congr_right fun hrank => and_congr_right fun hlen => ?_
  unfold TensorType.rank at hrank hlen ⊢
  rw [forall_mem_zip_zip (p := fun a b c => usizeAdd a b ≤ c) (by omega) (by omega)]
  rfl

/-- The slices that are accepted lie inside their inputs. -/
theorem validateSlice_eq_ok_iff {starts : List ℕ} {u : Unit}
    (hfit : ∀ axis < target.rank, starts.getD axis 0 + target.dim axis < 2 ^ 64) :
    validateSlice input target starts = .ok u ↔
      input.elem = target.elem ∧ WindowFits starts target.shape input.shape := by
  rw [validateSlice_eq_ok_iff_usize]
  refine and_congr_right fun _ => ?_
  constructor
  · rintro ⟨hrank, hlen, hall⟩
    refine ⟨hlen, hrank.symm, fun axis haxis => ?_⟩
    have hle := hall axis haxis
    rwa [usizeAdd_of_lt (hfit axis (hrank ▸ haxis))] at hle
  · rintro ⟨hlen, hrank, hall⟩
    refine ⟨hrank.symm, hlen, fun axis haxis => ?_⟩
    rw [usizeAdd_of_lt (hfit axis (show axis < target.shape.length from hrank ▸ haxis))]
    exact hall axis haxis

/-- **The check of `pad`**: sizes and low paddings are added up in 64 bits. -/
theorem validatePad_eq_ok_iff_usize {lows : List ℕ} {u : Unit} :
    validatePad input target lows = .ok u ↔
      input.elem = target.elem ∧ input.rank = target.rank ∧ lows.length = input.rank ∧
        ∀ axis < input.rank, usizeAdd (input.dim axis) (lows.getD axis 0) ≤ target.dim axis := by
  unfold validatePad
  simp only [except_bind_eq_ok_iff, failIf_eq_ok_iff, exists_const, bne_eq_false_iff_eq,
    Bool.or_eq_false_iff, checkPadDims_eq_ok_iff, and_assoc]
  refine and_congr_right fun _ => and_congr_right fun hrank => and_congr_right fun hlen => ?_
  unfold TensorType.rank at hrank hlen ⊢
  rw [forall_mem_zip_zip (p := fun a b c => usizeAdd a c ≤ b) (by omega) (by omega), hlen]
  rfl

/-- The padded tensors that are accepted hold their inputs. -/
theorem validatePad_eq_ok_iff {lows : List ℕ} {u : Unit}
    (hfit : ∀ axis < target.rank, input.dim axis + lows.getD axis 0 < 2 ^ 64) :
    validatePad input target lows = .ok u ↔
      input.elem = target.elem ∧ WindowFits lows input.shape target.shape := by
  rw [validatePad_eq_ok_iff_usize]
  refine and_congr_right fun _ => ?_
  constructor
  · rintro ⟨hrank, hlen, hall⟩
    refine ⟨hlen.trans hrank, hrank, fun axis haxis => ?_⟩
    have hle := hall axis (show axis < input.rank from hrank ▸ haxis)
    rw [usizeAdd_of_lt (hfit axis haxis)] at hle
    rwa [Nat.add_comm]
  · rintro ⟨hlen, hrank, hall⟩
    have hrank : input.rank = target.rank := hrank
    refine ⟨hrank, hlen.trans hrank.symm, fun axis haxis => ?_⟩
    rw [usizeAdd_of_lt (hfit axis (hrank ▸ haxis)), Nat.add_comm]
    exact hall axis (show axis < target.rank from hrank ▸ haxis)

/-- **The rule of `concat`**: the operands agree outside the axis, along which their
sizes are added up in 64 bits. -/
theorem concatResultType_eq_ok_iff_usize :
    concatResultType lhs rhs axis = .ok ty ↔
      lhs.elem = rhs.elem ∧ lhs.rank = rhs.rank ∧ axis < lhs.rank ∧
        (∀ other < lhs.rank, other ≠ axis → lhs.dim other = rhs.dim other) ∧
        ty = ⟨lhs.elem, lhs.shape.set axis (usizeAdd (lhs.dim axis) (rhs.dim axis))⟩ := by
  unfold concatResultType
  simp only [except_bind_eq_ok_iff, failIf_eq_ok_iff, exists_const, bne_eq_false_iff_eq,
    Bool.or_eq_false_iff, expectAxis_eq_ok_iff, except_pure_eq_ok_iff, and_assoc]
  refine and_congr_right fun _ => and_congr_right fun hrank => and_congr_right fun haxis => ?_
  have haxis : axis < lhs.shape.length := haxis
  have hdims : ∀ {shape : List ℕ}, concatDims axis 0 (lhs.shape.zip rhs.shape) = .ok shape ↔
      shape.length = lhs.shape.length ∧ ∀ k < lhs.shape.length,
        if k = axis then shape.getD k 0 = usizeAdd (lhs.shape.getD k 0) (rhs.shape.getD k 0)
        else lhs.shape.getD k 0 = rhs.shape.getD k 0 ∧
          shape.getD k 0 = lhs.shape.getD k 0 := by
    intro shape
    rw [concatDims_eq_ok_iff hrank]
    simp only [Nat.zero_add]
  constructor
  · rintro ⟨shape, hshape, rfl⟩
    obtain ⟨hlen, hall⟩ := hdims.mp hshape
    refine ⟨fun other hother hne => ?_, ?_⟩
    · have hdim := hall other hother
      rw [if_neg hne] at hdim
      exact hdim.1
    · rw [TensorType.mk.injEq]
      refine ⟨rfl, ext_getD (by rw [List.length_set, hlen]) fun k hk => ?_⟩
      have hdim := hall k (hlen ▸ hk)
      rw [getD_set_of_lt haxis]
      split_ifs at hdim ⊢ with heq
      · rw [hdim, heq]
        rfl
      · exact hdim.2
  · rintro ⟨hsame, rfl⟩
    refine ⟨_, hdims.mpr ⟨List.length_set, fun k hk => ?_⟩, rfl⟩
    rw [getD_set_of_lt haxis]
    split_ifs with heq
    · rw [heq]
      rfl
    · exact ⟨hsame k hk heq, rfl⟩

/-- The operands of `concat` agree outside the axis. -/
theorem concatResultType_eq_ok (hok : concatResultType lhs rhs axis = .ok ty)
    (hfit : lhs.dim axis + rhs.dim axis < 2 ^ 64) :
    axis < lhs.rank ∧ rhs = ⟨lhs.elem, lhs.shape.set axis (rhs.dim axis)⟩ ∧
      ty = ⟨lhs.elem, lhs.shape.set axis (lhs.dim axis + rhs.dim axis)⟩ := by
  obtain ⟨helem, hrank, haxis, hsame, rfl⟩ := concatResultType_eq_ok_iff_usize.mp hok
  have hrank : lhs.shape.length = rhs.shape.length := hrank
  refine ⟨haxis, ?_, by rw [usizeAdd_of_lt hfit]⟩
  rw [TensorType.mk.injEq]
  refine ⟨helem.symm, ext_getD (by rw [List.length_set, hrank]) fun k hk => ?_⟩
  rw [getD_set_of_lt haxis]
  split_ifs with heq
  · rw [heq, TensorType.dim]
  · exact (hsame k (lt_of_lt_of_eq hk hrank.symm) heq).symm

/-- Operands that agree outside the axis are accepted. -/
theorem concatResultType_set (elem : ElementType) {shape : List ℕ} (haxis : axis < shape.length)
    {size : ℕ} (hfit : shape.getD axis 0 + size < 2 ^ 64) :
    concatResultType ⟨elem, shape⟩ ⟨elem, shape.set axis size⟩ axis =
      .ok ⟨elem, shape.set axis (shape.getD axis 0 + size)⟩ := by
  refine concatResultType_eq_ok_iff_usize.mpr
    ⟨rfl, List.length_set.symm, haxis, fun other _ hne => ?_, ?_⟩
  · rw [TensorType.dim, TensorType.dim, getD_set_of_lt haxis, if_neg hne]
  · have hsize : (⟨elem, shape.set axis size⟩ : TensorType).dim axis = size := by
      rw [TensorType.dim, getD_set_of_lt haxis, if_pos rfl]
    rw [hsize]
    show _ = (⟨elem, shape.set axis (usizeAdd (shape.getD axis 0) size)⟩ : TensorType)
    rw [usizeAdd_of_lt hfit]

/-- The axes that a permutation rule accepts. -/
theorem validateAxisPermutation_eq_ok_iff {opName : String} {u : Unit} :
    validateAxisPermutation input axes opName = .ok u ↔
      axes.Perm (List.range input.shape.length) := by
  unfold validateAxisPermutation
  simp only [except_bind_eq_ok_iff, failIf_eq_ok_iff, exists_const, bne_eq_false_iff_eq,
    checkAxes_eq_ok_iff]
  constructor
  · rintro ⟨hlen, hlt, hnodup, -⟩
    exact perm_range_of_nodup hlen hnodup hlt
  · intro hperm
    refine ⟨hperm.length_eq.trans List.length_range, fun axis haxis => ?_,
      hperm.nodup_iff.mpr List.nodup_range, fun axis _ => List.not_mem_nil⟩
    exact List.mem_range.mp (hperm.mem_iff.mp haxis)

theorem permuteDimsResultType_eq_ok_iff {opName : String} :
    permuteDimsResultType input axes opName = .ok ty ↔
      axes.Perm (List.range input.shape.length) ∧ ty = ⟨input.elem, axes.map input.dim⟩ := by
  unfold permuteDimsResultType
  simp only [except_bind_eq_ok_iff, except_pure_eq_ok_iff, validateAxisPermutation_eq_ok_iff,
    exists_const]
  exact and_congr_right fun _ => eq_comm

theorem validatePermute_eq_ok_iff {u : Unit} :
    validatePermute input target axes = .ok u ↔
      axes.Perm (List.range input.shape.length) ∧ target = ⟨input.elem, axes.map input.dim⟩ := by
  unfold validatePermute
  simp only [except_bind_eq_ok_iff, failIf_eq_ok_iff, exists_const, bne_eq_false_iff_eq,
    Bool.or_eq_false_iff, checkAxes_eq_ok_iff]
  constructor
  · rintro ⟨helem, ⟨hlen, -⟩, ⟨hlt, hnodup, -⟩, hshape⟩
    refine ⟨perm_range_of_nodup hlen hnodup hlt, ?_⟩
    rw [helem, hshape]
  · rintro ⟨hperm, rfl⟩
    have hlen : axes.length = input.rank := hperm.length_eq.trans List.length_range
    refine ⟨rfl, ⟨hlen, ?_⟩, ⟨fun axis haxis => ?_, hperm.nodup_iff.mpr List.nodup_range,
      fun axis _ => List.not_mem_nil⟩, rfl⟩
    · rw [TensorType.rank, List.length_map, hlen]
    · exact List.mem_range.mp (hperm.mem_iff.mp haxis)

/-- The reversed shape. -/
theorem reverse_eq_map_getD (shape : List ℕ) :
    shape.reverse = ((List.range shape.length).reverse).map fun axis => shape.getD axis 0 := by
  rw [List.map_reverse, map_getD_range]

theorem transposeResultType_eq_ok_iff :
    transposeResultType input axes = .ok ty ↔
      (transposeAxes input.shape.length axes).Perm (List.range input.shape.length) ∧
        ty = ⟨input.elem, (transposeAxes input.shape.length axes).map input.dim⟩ := by
  unfold transposeResultType transposeAxes
  split_ifs with hempty
  · rw [Except.ok.injEq, and_iff_right (List.reverse_perm _), reverse_eq_map_getD]
    exact eq_comm
  · exact permuteDimsResultType_eq_ok_iff

end Rules

/-- **Outside of wrapping sizes, the rules accept the typed movements.** -/
theorem movementTyped_of_inferCallResults {op : CallOp} {tys results : List TensorType}
    (hmoves : op.movesData = true) (hok : inferCallResults op tys = .ok results)
    (hfit : SizesFit op tys) : MovementTyped op tys results := by
  cases op <;> try cases hmoves
  case slice target starts =>
      simp only [inferCallResults, except_bind_eq_ok_iff, expectUnary_eq_ok_iff,
        except_pure_eq_ok_iff] at hok
      obtain ⟨⟨elem, shape⟩, rfl, u, hslice, rfl⟩ := hok
      obtain ⟨helem, hwindow⟩ := (validateSlice_eq_ok_iff hfit).mp hslice
      obtain ⟨elem', size⟩ := target
      cases helem
      exact .slice hwindow
  case split axis sections =>
      simp only [inferCallResults, splitResultTypes, except_bind_eq_ok_iff, expectUnary_eq_ok_iff,
        except_pure_eq_ok_iff, expectAxis_eq_ok_iff, failIf_eq_ok_iff, exists_const,
        bne_eq_false_iff_eq] at hok
      obtain ⟨⟨elem, shape⟩, rfl, haxis, hsum, rfl⟩ := hok
      rw [usizeSum_eq, Nat.mod_eq_of_lt hfit] at hsum
      exact .split haxis hsum
  case take axis index =>
      simp only [inferCallResults, takeResultType, except_bind_eq_ok_iff, expectUnary_eq_ok_iff,
        except_pure_eq_ok_iff, expectAxis_eq_ok_iff, failIf_eq_ok_iff, exists_const,
        decide_eq_false_iff_not, Nat.not_le] at hok
      obtain ⟨⟨elem, shape⟩, rfl, ty, ⟨haxis, hindex, rfl⟩, rfl⟩ := hok
      exact .take haxis hindex
  case concat axis =>
      simp only [inferCallResults, except_bind_eq_ok_iff, expectBinary_eq_ok_iff,
        except_pure_eq_ok_iff] at hok
      obtain ⟨⟨⟨elem, shape⟩, rhs⟩, rfl, ty, hconcat, rfl⟩ := hok
      obtain ⟨haxis, hrhs, rfl⟩ := concatResultType_eq_ok hconcat hfit
      dsimp only at hrhs ⊢
      generalize rhs.dim axis = size at hrhs ⊢
      subst hrhs
      exact .concat haxis
  case stack axis =>
      simp only [inferCallResults, stackResultType, except_bind_eq_ok_iff, expectBinary_eq_ok_iff,
        except_pure_eq_ok_iff, failIf_eq_ok_iff, exists_const, bne_eq_false_iff_eq,
        decide_eq_false_iff_not, Nat.not_lt] at hok
      obtain ⟨⟨⟨elem, shape⟩, rhs⟩, rfl, ty, ⟨hsame, haxis, rfl⟩, rfl⟩ := hok
      dsimp only at hsame haxis ⊢
      subst hsame
      exact .stack haxis
  case tile multiples =>
      simp only [inferCallResults, tileResultType, except_bind_eq_ok_iff, expectUnary_eq_ok_iff,
        except_pure_eq_ok_iff, failIf_eq_ok_iff, exists_const, bne_eq_false_iff_eq] at hok
      obtain ⟨⟨elem, shape⟩, rfl, ty, ⟨hlen, rfl⟩, rfl⟩ := hok
      have hlen : multiples.length = shape.length := hlen
      have hmul : shape.zipWith usizeMul multiples = shape.zipWith (· * ·) multiples := by
        refine ext_getD (by simp) fun axis haxis => ?_
        rw [List.length_zipWith] at haxis
        rw [getD_zipWith _ hlen.symm (by omega), getD_zipWith _ hlen.symm (by omega)]
        exact usizeMul_of_lt (hfit axis (show axis < shape.length by omega))
      dsimp only
      rw [hmul]
      exact .tile hlen
  case repeat_ axis count =>
      simp only [inferCallResults, repeatResultType, except_bind_eq_ok_iff, expectUnary_eq_ok_iff,
        except_pure_eq_ok_iff] at hok
      obtain ⟨⟨elem, shape⟩, rfl, ty, hrepeat, rfl⟩ := hok
      split_ifs at hrepeat with haxis
      obtain rfl := Except.ok.inj hrepeat
      have hmul : usizeMul (shape.getD axis 0) count = shape.getD axis 0 * count :=
        usizeMul_of_lt hfit
      simp only [TensorType.dim, hmul]
      exact .repeat_ haxis
  case flip axes =>
      simp only [inferCallResults, validateAxisList, except_bind_eq_ok_iff, expectUnary_eq_ok_iff,
        except_pure_eq_ok_iff, checkAxes_eq_ok_iff, exists_const] at hok
      obtain ⟨⟨elem, shape⟩, rfl, ⟨hlt, hnodup, -⟩, rfl⟩ := hok
      exact .flip hnodup hlt
  case roll axis shift =>
      simp only [inferCallResults, except_bind_eq_ok_iff, expectUnary_eq_ok_iff,
        except_pure_eq_ok_iff, expectAxis_eq_ok_iff, exists_const] at hok
      obtain ⟨⟨elem, shape⟩, rfl, haxis, rfl⟩ := hok
      exact .roll haxis
  case pad target lows =>
      simp only [inferCallResults, except_bind_eq_ok_iff, expectUnary_eq_ok_iff,
        except_pure_eq_ok_iff] at hok
      obtain ⟨⟨elem, shape⟩, rfl, u, hpad, rfl⟩ := hok
      obtain ⟨helem, hwindow⟩ := (validatePad_eq_ok_iff hfit).mp hpad
      obtain ⟨elem', size⟩ := target
      cases helem
      exact .pad hwindow
  case transpose axes =>
      simp only [inferCallResults, except_bind_eq_ok_iff, expectUnary_eq_ok_iff,
        except_pure_eq_ok_iff] at hok
      obtain ⟨⟨elem, shape⟩, rfl, ty, htranspose, rfl⟩ := hok
      obtain ⟨hperm, rfl⟩ := transposeResultType_eq_ok_iff.mp htranspose
      exact .transpose hperm
  case permute target axes =>
      simp only [inferCallResults, except_bind_eq_ok_iff, expectUnary_eq_ok_iff,
        except_pure_eq_ok_iff] at hok
      obtain ⟨⟨elem, shape⟩, rfl, u, hpermute, rfl⟩ := hok
      obtain ⟨hperm, rfl⟩ := validatePermute_eq_ok_iff.mp hpermute
      exact .permute hperm
  case permuteDims axes =>
      simp only [inferCallResults, except_bind_eq_ok_iff, expectUnary_eq_ok_iff,
        except_pure_eq_ok_iff] at hok
      obtain ⟨⟨elem, shape⟩, rfl, ty, hpermute, rfl⟩ := hok
      obtain ⟨hperm, rfl⟩ := permuteDimsResultType_eq_ok_iff.mp hpermute
      exact .permuteDims hperm
  case swapAxes axis0 axis1 =>
      simp only [inferCallResults, swapaxesResultType, except_bind_eq_ok_iff,
        expectUnary_eq_ok_iff, except_pure_eq_ok_iff, expectAxis_eq_ok_iff, exists_const] at hok
      obtain ⟨⟨elem, shape⟩, rfl, ty, ⟨haxis0, haxis1, rfl⟩, rfl⟩ := hok
      exact .swapAxes haxis0 haxis1
  case moveAxis source destination =>
      simp only [inferCallResults, moveaxisResultType, moveaxisPermutation, except_bind_eq_ok_iff,
        expectUnary_eq_ok_iff, except_pure_eq_ok_iff, failIf_eq_ok_iff, exists_const,
        Bool.or_eq_false_iff, decide_eq_false_iff_not, Nat.not_le] at hok
      obtain ⟨⟨elem, shape⟩, rfl, ty, ⟨axes, ⟨⟨hsource, hdestination⟩, rfl⟩, rfl⟩, rfl⟩ := hok
      exact .moveAxis hsource hdestination
  case reshape target =>
      simp only [inferCallResults, validateReshape, except_bind_eq_ok_iff, expectUnary_eq_ok_iff,
        except_pure_eq_ok_iff, failIf_eq_ok_iff, exists_const, bne_eq_false_iff_eq] at hok
      obtain ⟨⟨elem, shape⟩, rfl, ⟨helem, hcount⟩, rfl⟩ := hok
      obtain ⟨elem', size⟩ := target
      cases helem
      obtain ⟨hshape, hsize⟩ : shape.prod < 2 ^ 64 ∧ size.prod < 2 ^ 64 := hfit
      rw [elementCount, elementCount, usizeProduct_eq, usizeProduct_eq, Nat.mod_eq_of_lt hshape,
        Nat.mod_eq_of_lt hsize] at hcount
      exact .reshape hcount

/-- A reshape is accepted whenever the element counts agree. -/
theorem inferCallResults_reshape (elem : ElementType) {shape size : List ℕ}
    (hprod : shape.prod = size.prod) :
    inferCallResults (.reshape ⟨elem, size⟩) [⟨elem, shape⟩] = .ok [⟨elem, size⟩] := by
  have hcount : shape.prod % 2 ^ 64 = size.prod % 2 ^ 64 := by rw [hprod]
  simp only [inferCallResults, validateReshape, except_bind_eq_ok_iff, expectUnary_eq_ok_iff,
    except_pure_eq_ok_iff, failIf_eq_ok_iff, exists_const, bne_eq_false_iff_eq, elementCount,
    usizeProduct_eq]
  exact ⟨_, rfl, ⟨rfl, hcount⟩, trivial⟩

/-- **Typed movements are accepted.** -/
theorem inferCallResults_of_movementTyped {op : CallOp} {tys results : List TensorType}
    (htyped : MovementTyped op tys results) (hfit : SizesFit op tys) :
    inferCallResults op tys = .ok results := by
  cases htyped with
  | slice hfits =>
      simp only [inferCallResults, except_bind_eq_ok_iff, expectUnary_eq_ok_iff,
        except_pure_eq_ok_iff]
      exact ⟨_, rfl, (), (validateSlice_eq_ok_iff hfit).mpr ⟨rfl, hfits⟩, trivial⟩
  | @split elem shape sections axis haxis hsum =>
      simp only [inferCallResults, splitResultTypes, except_bind_eq_ok_iff, expectUnary_eq_ok_iff,
        except_pure_eq_ok_iff, expectAxis_eq_ok_iff, failIf_eq_ok_iff, exists_const,
        bne_eq_false_iff_eq]
      refine ⟨_, rfl, haxis, ?_, rfl⟩
      rw [usizeSum_eq, Nat.mod_eq_of_lt hfit]
      exact hsum
  | take haxis hindex =>
      simp only [inferCallResults, takeResultType, except_bind_eq_ok_iff, expectUnary_eq_ok_iff,
        except_pure_eq_ok_iff, expectAxis_eq_ok_iff, failIf_eq_ok_iff, exists_const,
        decide_eq_false_iff_not, Nat.not_le]
      exact ⟨_, rfl, _, ⟨haxis, hindex, rfl⟩, rfl⟩
  | @concat elem shape axis size haxis =>
      have hdim : (shape.set axis size).getD axis 0 = size := by
        rw [getD_set_of_lt haxis, if_pos rfl]
      have hsum : shape.getD axis 0 + (shape.set axis size).getD axis 0 < 2 ^ 64 := hfit
      rw [hdim] at hsum
      simp only [inferCallResults, except_bind_eq_ok_iff, expectBinary_eq_ok_iff,
        except_pure_eq_ok_iff]
      exact ⟨(_, _), rfl, _, concatResultType_set elem haxis hsum, rfl⟩
  | stack haxis =>
      simp only [inferCallResults, stackResultType, except_bind_eq_ok_iff, expectBinary_eq_ok_iff,
        except_pure_eq_ok_iff, failIf_eq_ok_iff, exists_const, bne_eq_false_iff_eq,
        decide_eq_false_iff_not, Nat.not_lt]
      exact ⟨(_, _), rfl, _, ⟨rfl, haxis, rfl⟩, rfl⟩
  | @tile elem shape multiples hlen =>
      have hmul : shape.zipWith usizeMul multiples = shape.zipWith (· * ·) multiples := by
        refine ext_getD (by simp) fun axis haxis => ?_
        rw [List.length_zipWith] at haxis
        rw [getD_zipWith _ hlen.symm (by omega), getD_zipWith _ hlen.symm (by omega)]
        exact usizeMul_of_lt (hfit axis (show axis < shape.length by omega))
      simp only [inferCallResults, tileResultType, except_bind_eq_ok_iff, expectUnary_eq_ok_iff,
        except_pure_eq_ok_iff, failIf_eq_ok_iff, exists_const, bne_eq_false_iff_eq]
      exact ⟨_, rfl, _, ⟨hlen, rfl⟩, by rw [hmul]⟩
  | @repeat_ elem shape axis count haxis =>
      have hmul : usizeMul (shape.getD axis 0) count = shape.getD axis 0 * count :=
        usizeMul_of_lt hfit
      simp only [inferCallResults, repeatResultType, except_bind_eq_ok_iff, expectUnary_eq_ok_iff,
        except_pure_eq_ok_iff]
      refine ⟨_, rfl, _, if_pos haxis, ?_⟩
      simp only [TensorType.dim, hmul]
  | flip hnodup hlt =>
      simp only [inferCallResults, validateAxisList, except_bind_eq_ok_iff, expectUnary_eq_ok_iff,
        except_pure_eq_ok_iff, checkAxes_eq_ok_iff, exists_const]
      exact ⟨_, rfl, ⟨hlt, hnodup, fun _ _ => List.not_mem_nil⟩, rfl⟩
  | roll haxis =>
      simp only [inferCallResults, except_bind_eq_ok_iff, expectUnary_eq_ok_iff,
        except_pure_eq_ok_iff, expectAxis_eq_ok_iff, exists_const]
      exact ⟨_, rfl, haxis, rfl⟩
  | pad hfits =>
      simp only [inferCallResults, except_bind_eq_ok_iff, expectUnary_eq_ok_iff,
        except_pure_eq_ok_iff]
      exact ⟨_, rfl, (), (validatePad_eq_ok_iff hfit).mpr ⟨rfl, hfits⟩, trivial⟩
  | transpose hperm =>
      simp only [inferCallResults, except_bind_eq_ok_iff, expectUnary_eq_ok_iff,
        except_pure_eq_ok_iff]
      exact ⟨_, rfl, _, transposeResultType_eq_ok_iff.mpr ⟨hperm, rfl⟩, rfl⟩
  | permute hperm =>
      simp only [inferCallResults, except_bind_eq_ok_iff, expectUnary_eq_ok_iff,
        except_pure_eq_ok_iff]
      exact ⟨_, rfl, (), validatePermute_eq_ok_iff.mpr ⟨hperm, rfl⟩, trivial⟩
  | permuteDims hperm =>
      simp only [inferCallResults, except_bind_eq_ok_iff, expectUnary_eq_ok_iff,
        except_pure_eq_ok_iff]
      exact ⟨_, rfl, _, permuteDimsResultType_eq_ok_iff.mpr ⟨hperm, rfl⟩, rfl⟩
  | swapAxes haxis0 haxis1 =>
      simp only [inferCallResults, swapaxesResultType, except_bind_eq_ok_iff,
        expectUnary_eq_ok_iff, except_pure_eq_ok_iff, expectAxis_eq_ok_iff, exists_const]
      exact ⟨_, rfl, _, ⟨haxis0, haxis1, rfl⟩, rfl⟩
  | moveAxis hsource hdestination =>
      simp only [inferCallResults, moveaxisResultType, moveaxisPermutation, except_bind_eq_ok_iff,
        expectUnary_eq_ok_iff, except_pure_eq_ok_iff, failIf_eq_ok_iff, exists_const,
        Bool.or_eq_false_iff, decide_eq_false_iff_not, Nat.not_le]
      exact ⟨_, rfl, _, ⟨_, ⟨⟨hsource, hdestination⟩, rfl⟩, rfl⟩, rfl⟩
  | reshape hprod => exact inferCallResults_reshape _ hprod

/-! ## The laws stay in bounds -/

/-- **A law reads positions of its operands.** -/
theorem inBounds_movementLaw {op : CallOp} {tys results : List TensorType}
    (htyped : MovementTyped op tys results) {result : ℕ} {ty : TensorType}
    (hresult : results[result]? = some ty) {i : List ℕ} (hi : InBounds i ty.shape)
    {operand : ℕ} {j : List ℕ} (hlaw : movementLaw op tys result i = some (operand, j)) :
    ∃ operandTy, tys[operand]? = some operandTy ∧ InBounds j operandTy.shape := by
  have hone : ∀ {ty' : TensorType}, results = [ty'] → ty' = ty := by
    rintro ty' rfl
    obtain ⟨hlt, heq⟩ := List.getElem?_eq_some_iff.mp hresult
    rw [List.length_singleton, Nat.lt_one_iff] at hlt
    subst hlt
    exact heq
  cases htyped with
  | slice hfits =>
      obtain rfl := hone rfl
      obtain ⟨rfl, rfl⟩ := Prod.mk.injEq .. ▸ Option.some.inj hlaw
      exact ⟨_, rfl, hfits.inBounds hi⟩
  | @split elem shape sections axis haxis hsum =>
      obtain ⟨rfl, rfl⟩ := Prod.mk.injEq .. ▸ Option.some.inj hlaw
      rw [List.getElem?_map, Option.map_eq_some_iff] at hresult
      obtain ⟨size, hsize, rfl⟩ := hresult
      have hcoord := hi.getD_lt (show axis < (shape.set axis size).length by rwa [List.length_set])
      rw [getD_set_of_lt haxis, if_pos rfl] at hcoord
      have hle : (sections.take (result + 1)).sum ≤ sections.sum :=
        (List.take_sublist _ _).sum_le_sum fun _ _ => Nat.zero_le _
      rw [List.take_add_one, hsize, Option.toList_some, List.sum_append, List.sum_singleton] at hle
      have hlt : (sections.take result).sum + i.getD axis 0 < shape.getD axis 0 := by omega
      exact ⟨_, rfl, inBounds_set hi hlt⟩
  | @take elem shape axis index haxis hindex =>
      obtain rfl := hone rfl
      obtain ⟨rfl, rfl⟩ := Prod.mk.injEq .. ▸ Option.some.inj hlaw
      refine ⟨_, rfl, ?_⟩
      have hle : axis ≤ (shape.eraseIdx axis).length := by
        rw [List.length_eraseIdx, if_pos haxis]
        omega
      have hinsert := InBounds.insertIdx hi hle hindex
      rwa [insertIdx_eraseIdx_of_getD haxis] at hinsert
  | @concat elem shape axis size haxis =>
      obtain rfl := hone rfl
      have hcoord := hi.getD_lt (show axis < (shape.set axis _).length by rwa [List.length_set])
      rw [getD_set_of_lt haxis, if_pos rfl] at hcoord
      have hcases : movementLaw (.concat axis) [⟨elem, shape⟩, ⟨elem, shape.set axis size⟩] result i =
          if i.getD axis 0 < shape.getD axis 0 then some (0, i)
          else some (1, i.set axis (i.getD axis 0 - shape.getD axis 0)) := rfl
      rw [hcases] at hlaw
      split_ifs at hlaw with hlt
      · obtain ⟨rfl, rfl⟩ := Prod.mk.injEq .. ▸ Option.some.inj hlaw
        refine ⟨_, rfl, ?_⟩
        have := inBounds_set hi hlt
        rwa [set_getD_self] at this
      · obtain ⟨rfl, rfl⟩ := Prod.mk.injEq .. ▸ Option.some.inj hlaw
        refine ⟨_, rfl, ?_⟩
        have hset := @InBounds.set i _ hi axis (i.getD axis 0 - shape.getD axis 0) size (by omega)
        rwa [List.set_set] at hset
  | @stack elem shape axis haxis =>
      obtain rfl := hone rfl
      obtain ⟨rfl, rfl⟩ := Prod.mk.injEq .. ▸ Option.some.inj hlaw
      have hcoord := hi.getD_lt (show axis < (shape.insertIdx axis 2).length by
        rw [List.length_insertIdx_of_le_length haxis]
        omega)
      rw [getD_insertIdx_self haxis] at hcoord
      have hread := hi.eraseIdx axis
      rw [List.eraseIdx_insertIdx_self] at hread
      refine ⟨⟨elem, shape⟩, ?_, hread⟩
      obtain hzero | hone : i.getD axis 0 = 0 ∨ i.getD axis 0 = 1 := by omega
      · rw [hzero]
        rfl
      · rw [hone]
        rfl
  | @tile elem shape multiples hlen =>
      obtain rfl := hone rfl
      obtain ⟨rfl, rfl⟩ := Prod.mk.injEq .. ▸ Option.some.inj hlaw
      refine ⟨_, rfl, ?_⟩
      have hilen := hi.length_eq
      rw [List.length_zipWith, hlen, min_self] at hilen
      refine inBounds_iff_getD.mpr ⟨?_, fun axis haxis => ?_⟩
      · rw [List.length_zipWith]
        exact (by omega : min i.length shape.length = shape.length)
      · have haxis : axis < shape.length := haxis
        have hcoord := hi.getD_lt (show axis < (List.zipWith (· * ·) shape multiples).length by
          rw [List.length_zipWith]
          omega)
        rw [getD_zipWith _ hlen.symm haxis] at hcoord
        have hcode : (List.zipWith (· % ·) i shape).getD axis 0 =
            i.getD axis 0 % shape.getD axis 0 := getD_zipWith _ hilen (by omega)
        change (List.zipWith (· % ·) i shape).getD axis 0 < shape.getD axis 0
        rw [hcode]
        exact Nat.mod_lt _ (Nat.pos_of_mul_pos_right (Nat.zero_lt_of_lt hcoord))
  | @repeat_ elem shape axis count haxis =>
      obtain rfl := hone rfl
      obtain ⟨rfl, rfl⟩ := Prod.mk.injEq .. ▸ Option.some.inj hlaw
      have hcoord := hi.getD_lt (show axis < (shape.set axis _).length by rwa [List.length_set])
      rw [getD_set_of_lt haxis, if_pos rfl, Nat.mul_comm] at hcoord
      exact ⟨_, rfl, inBounds_set hi (Nat.div_lt_of_lt_mul hcoord)⟩
  | @flip elem shape axes hnodup hlt =>
      obtain rfl := hone rfl
      obtain ⟨rfl, rfl⟩ := Prod.mk.injEq .. ▸ Option.some.inj hlaw
      exact ⟨_, rfl, inBounds_flipPosition _ hi⟩
  | @roll elem shape axis shift haxis =>
      obtain rfl := hone rfl
      obtain ⟨rfl, rfl⟩ := Prod.mk.injEq .. ▸ Option.some.inj hlaw
      have hcoord := hi.getD_lt haxis
      refine ⟨_, rfl, @inBounds_set shape i axis (shape.getD axis 0) _ ?_
        (Nat.mod_lt _ (Nat.zero_lt_of_lt hcoord))⟩
      rw [set_getD_self]
      exact hi
  | @pad elem shape lows size hfits =>
      obtain rfl := hone rfl
      obtain ⟨j', hwindow, hpair⟩ := Option.map_eq_some_iff.mp hlaw
      obtain ⟨rfl, rfl⟩ := Prod.mk.injEq .. ▸ hpair
      exact ⟨_, rfl, ((window_eq_some_iff (hfits.1.trans hfits.2.1.symm)).mp hwindow).1⟩
  | transpose hperm =>
      obtain rfl := hone rfl
      obtain ⟨rfl, rfl⟩ := Prod.mk.injEq .. ▸ Option.some.inj hlaw
      exact ⟨_, rfl, inBounds_permutePosition hperm hi⟩
  | permute hperm =>
      obtain rfl := hone rfl
      obtain ⟨rfl, rfl⟩ := Prod.mk.injEq .. ▸ Option.some.inj hlaw
      exact ⟨_, rfl, inBounds_permutePosition hperm hi⟩
  | permuteDims hperm =>
      obtain rfl := hone rfl
      obtain ⟨rfl, rfl⟩ := Prod.mk.injEq .. ▸ Option.some.inj hlaw
      exact ⟨_, rfl, inBounds_permutePosition hperm hi⟩
  | swapAxes haxis0 haxis1 =>
      obtain rfl := hone rfl
      obtain ⟨rfl, rfl⟩ := Prod.mk.injEq .. ▸ Option.some.inj hlaw
      rw [← map_swapDims_range haxis0 haxis1] at hi
      exact ⟨_, rfl, inBounds_permutePosition (swapDims_perm haxis0 haxis1) hi⟩
  | moveAxis hsource hdestination =>
      obtain rfl := hone rfl
      obtain ⟨rfl, rfl⟩ := Prod.mk.injEq .. ▸ Option.some.inj hlaw
      exact ⟨_, rfl, inBounds_permutePosition (moveaxisAxes_perm hsource hdestination) hi⟩
  | @reshape elem shape size hprod =>
      obtain rfl := hone rfl
      obtain ⟨rfl, rfl⟩ := Prod.mk.injEq .. ▸ Option.some.inj hlaw
      refine ⟨_, rfl, inBounds_unravel ?_⟩
      exact (ravel_lt hi).trans_eq hprod.symm

end Knok
