import Mathlib
import Knok.Broadcast
import Knok.Arrays.Layout

/-!
# Shapes in the back end

The lowering computes broadcast shapes a second time, with functions of its own.
They agree with the type rules': the same shapes, another text on failure.
-/

namespace Knok.Lowering

open Arrays Control

/-- `broadcast_shape` of the lowering. -/
def broadcastShape (lhs rhs : List ℕ) : Except Error (List ℕ) :=
  (broadcastShapeSlices lhs rhs).mapError fun message => .msg ("broadcast " ++ message)

theorem broadcastShape_eq_ok_iff {lhs rhs shape : List ℕ} :
    broadcastShape lhs rhs = .ok shape ↔ broadcastShapeSlices lhs rhs = .ok shape := by
  unfold broadcastShape
  cases broadcastShapeSlices lhs rhs <;> simp [Except.mapError]

/-- The input can be broadcast to the output. -/
def ensureBroadcastable (input output : TensorType) : Except Error Unit := do
  failIf (input.elem != output.elem) "broadcast input and output element types differ"
  let shape ← broadcastShape input.shape output.shape
  failIf (shape != output.shape)
    s!"broadcast result shape {shape} does not match requested output {output.shape}"

/-- The check of the lowering is exact. -/
theorem ensureBroadcastable_eq_ok_iff {input output : TensorType} :
    ensureBroadcastable input output = .ok () ↔
      input.elem = output.elem ∧ BroadcastsTo input.shape output.shape := by
  unfold ensureBroadcastable
  rw [← broadcastShapeSlices_eq_right_iff]
  simp only [except_bind_eq_ok_iff, failIf_eq_ok_iff, broadcastShape_eq_ok_iff, bne_eq_false_iff_eq,
    exists_const, exists_eq_right]

/-! ## Broadcasting along one axis -/

/-- The added dimensions of an axis broadcast. -/
def axisBroadcastDimensions (inputRank outputRank axis : ℕ) : Except Error (List ℕ) := do
  failIf (inputRank + 1 != outputRank) "axis broadcast expects exactly one reduced dimension"
  failIf (outputRank ≤ axis) s!"axis {axis} is out of bounds for rank {outputRank}"
  return [axis]

/-- The per-dimension loop of `ensure_axis_broadcastable`. -/
def checkAxisBroadcastDims (input output : TensorType) (axis : ℕ) :
    List ℕ → Except Error Unit
  | [] => .ok ()
  | outputIndex :: rest =>
      if outputIndex = axis then checkAxisBroadcastDims input output axis rest
      else
        let inputIndex := if outputIndex < axis then outputIndex else outputIndex - 1
        if input.dim inputIndex ≠ output.dim outputIndex then
          .error (.msg
            s!"axis broadcast dimension mismatch at output dimension {outputIndex}: input {input.dim inputIndex} vs output {output.dim outputIndex}")
        else checkAxisBroadcastDims input output axis rest

/-- The output has one axis more and the input's dimensions elsewhere. -/
def ensureAxisBroadcastable (input output : TensorType) (axis : ℕ) : Except Error Unit := do
  failIf (input.elem != output.elem) "broadcast input and output element types differ"
  failIf (input.rank + 1 != output.rank) "axis broadcast expects exactly one reduced dimension"
  checkAxisBroadcastDims input output axis (List.range output.rank)

theorem checkAxisBroadcastDims_eq_ok_iff {input output : TensorType} {axis : ℕ}
    {indices : List ℕ} :
    checkAxisBroadcastDims input output axis indices = .ok () ↔
      ∀ index ∈ indices, index ≠ axis →
        input.dim (if index < axis then index else index - 1) = output.dim index := by
  induction indices with
  | nil => simp [checkAxisBroadcastDims]
  | cons index indices ih =>
      rw [List.forall_mem_cons, ← ih, checkAxisBroadcastDims]
      by_cases haxis : index = axis
      · simp [haxis]
      · by_cases hdim :
          input.dim (if index < axis then index else index - 1) = output.dim index
        · simp [haxis, hdim]
        · simp [haxis, hdim]

/-- The check holds of a shape with the axis taken out. -/
theorem ensureAxisBroadcastable_eraseIdx {input output : TensorType} {axis : ℕ}
    (helem : input.elem = output.elem) (haxis : axis < output.rank)
    (hshape : input.shape = output.shape.eraseIdx axis) :
    ensureAxisBroadcastable input output axis = .ok () := by
  have hrank : input.rank + 1 = output.rank := by
    unfold TensorType.rank at haxis ⊢
    rw [hshape, List.length_eraseIdx, if_pos haxis]
    omega
  have hdims : checkAxisBroadcastDims input output axis (List.range output.rank) = .ok () := by
    refine checkAxisBroadcastDims_eq_ok_iff.mpr fun index _ hne => ?_
    unfold TensorType.dim
    rw [hshape, getD_eraseIdx]
    congr 1
    split_ifs <;> omega
  simp [ensureAxisBroadcastable, helem, hrank, hdims, failIf, bind, Except.bind]

/-! ## Reassociations -/

/-- The groups are consecutive axes of the larger shape, and each group's
dimensions multiply to one dimension of the smaller shape. -/
def Reassociates (groups : List (List ℕ)) (large small : List ℕ) : Prop :=
  groups.flatten = List.range large.length ∧ (∀ group ∈ groups, group ≠ []) ∧
    small = groups.map fun group => (group.map fun axis => large.getD axis 0).prod

instance (groups : List (List ℕ)) (large small : List ℕ) :
    Decidable (Reassociates groups large small) := inferInstanceAs (Decidable (_ ∧ _ ∧ _))

/-- Adds axes to the last group, or makes them a group. -/
def extendLastGroup (groups : List (List ℕ)) (pending : List ℕ) : List (List ℕ) :=
  if pending.isEmpty then groups
  else
    match groups.getLast? with
    | none => [pending]
    | some last => groups.dropLast ++ [last ++ pending]

/-- All axes in one group. -/
def reassociationForRank (rank : ℕ) : List (List ℕ) := [List.range rank]

/-- The loop of `collapse_reassociation_for_removed_axis`; the first argument
bounds the number of rounds. -/
def removedAxisGroups (rank axis : ℕ) : ℕ → ℕ → List (List ℕ) → List (List ℕ)
  | 0, _, groups => groups
  | left + 1, index, groups =>
      if rank ≤ index then groups
      else if index = axis then
        if groups.isEmpty then
          removedAxisGroups rank axis left (index + 2) (groups ++ [[index, index + 1]])
        else removedAxisGroups rank axis left (index + 1) (extendLastGroup groups [index])
      else removedAxisGroups rank axis left (index + 1) (groups ++ [[index]])

/-- The groups that collapse one axis: it joins the axis before it, the first
axis the one after. -/
def collapseReassociationForRemovedAxis (rank axis : ℕ) : List (List ℕ) :=
  if rank ≤ 1 then reassociationForRank rank else removedAxisGroups rank axis rank 0 []

/-- The groups that expand one axis. -/
def expandReassociationForInsertedAxis (inputRank axis : ℕ) : List (List ℕ) :=
  let groups := (List.range inputRank).map fun inputAxis =>
    if inputAxis = axis then [inputAxis, inputAxis + 1]
    else if inputAxis < axis then [inputAxis]
    else [inputAxis + 1]
  if axis = inputRank then extendLastGroup groups [axis] else groups

/-- A unit dimension of a broadcast input that the output has not. -/
def isSqueezed (inputDim outputDim : ℕ) : Bool := inputDim == 1 && outputDim != 1

/-- One round of the loop of `collapse_reassociation_for_squeezed_broadcast`:
the groups that are complete and the axes of the group under construction. -/
def squeezeGroup (state : List (List ℕ) × List ℕ) (entry : (ℕ × ℕ) × ℕ) :
    List (List ℕ) × List ℕ :=
  let pending := state.2 ++ [entry.2]
  if isSqueezed entry.1.1 entry.1.2 then (state.1, pending) else (state.1 ++ [pending], [])

/-- The groups that squeeze unit dimensions out of a broadcast input: a squeezed
axis joins the next kept one, or the last. -/
def collapseReassociationForSqueezedBroadcast (inputShape alignedOutputShape : List ℕ) :
    List (List ℕ) :=
  let state := (inputShape.zip alignedOutputShape).zipIdx.foldl squeezeGroup ([], [])
  extendLastGroup state.1 state.2

/-- The product of the dimensions of a group of axes. -/
def groupSize (shape group : List ℕ) : ℕ := (group.map fun axis => shape.getD axis 0).prod

/-- What holds after the axes below `count` have been visited. -/
structure SqueezeInv (inputShape alignedShape : List ℕ) (count : ℕ)
    (state : List (List ℕ) × List ℕ) : Prop where
  flatten : state.1.flatten ++ state.2 = List.range count
  nonempty : ∀ group ∈ state.1, group ≠ []
  pending : groupSize inputShape state.2 = 1
  sizes : state.1.map (groupSize inputShape) =
    ((List.range count).filter fun axis =>
      !isSqueezed (inputShape.getD axis 0) (alignedShape.getD axis 0)).map
        fun axis => inputShape.getD axis 0

theorem groupSize_append_singleton (shape group : List ℕ) (axis : ℕ) :
    groupSize shape (group ++ [axis]) = groupSize shape group * shape.getD axis 0 := by
  simp [groupSize]

/-- One axis. -/
theorem SqueezeInv.step {inputShape alignedShape : List ℕ} {count : ℕ}
    {state : List (List ℕ) × List ℕ} (h : SqueezeInv inputShape alignedShape count state) :
    SqueezeInv inputShape alignedShape (count + 1)
      (squeezeGroup state
        ((inputShape.getD count 0, alignedShape.getD count 0), count)) := by
  obtain ⟨hflatten, hnonempty, hpending, hsizes⟩ := h
  unfold squeezeGroup
  dsimp only
  have hrange : List.range (count + 1) = List.range count ++ [count] := List.range_succ
  split_ifs with hsqueezed
  · refine ⟨?_, hnonempty, ?_, ?_⟩
    · rw [← List.append_assoc, hflatten, hrange]
    · have hone : inputShape.getD count 0 = 1 := by
        rw [isSqueezed, Bool.and_eq_true, beq_iff_eq] at hsqueezed
        exact hsqueezed.1
      rw [groupSize_append_singleton, hpending, hone]
    · rw [hrange, List.filter_append, List.filter_cons_of_neg (by simpa using hsqueezed),
        List.filter_nil, List.append_nil, hsizes]
  · refine ⟨?_, ?_, rfl, ?_⟩
    · rw [List.flatten_append, List.flatten_singleton, List.append_nil, ← List.append_assoc,
        hflatten, hrange]
    · intro group hgroup
      rcases List.mem_append.mp hgroup with hold | hnew
      · exact hnonempty group hold
      · rw [List.mem_singleton.mp hnew]
        simp
    · rw [hrange, List.filter_append, List.filter_cons_of_pos (by simpa using hsqueezed),
        List.filter_nil, List.map_append, List.map_append, hsizes, List.map_singleton,
        List.map_singleton, groupSize_append_singleton, hpending, one_mul]

/-- All axes. -/
theorem squeezeInv_foldl {inputShape alignedShape : List ℕ}
    (hlen : inputShape.length = alignedShape.length) :
    SqueezeInv inputShape alignedShape inputShape.length
      ((inputShape.zip alignedShape).zipIdx.foldl squeezeGroup ([], [])) := by
  have hentries : (inputShape.zip alignedShape).zipIdx =
      (List.range inputShape.length).map fun axis =>
        ((inputShape.getD axis 0, alignedShape.getD axis 0), axis) := by
    refine List.ext_getElem (by simp [← hlen]) fun axis haxis haxis' => ?_
    have hlt : axis < inputShape.length := by simpa using haxis'
    rw [List.getElem_zipIdx, List.getElem_zip, List.getElem_map, List.getElem_range,
      List.getD_eq_getElem _ _ hlt, List.getD_eq_getElem _ _ (hlen ▸ hlt), Nat.zero_add]
  rw [hentries]
  generalize inputShape.length = count
  induction count with
  | zero => exact ⟨rfl, by simp, rfl, rfl⟩
  | succ count ih =>
      rw [List.range_succ, List.map_append, List.foldl_append]
      exact ih.step

/-- **The groups of a squeezed broadcast are a reassociation** onto the kept
dimensions, as long as one is kept. -/
theorem reassociates_squeezed {inputShape alignedShape : List ℕ}
    (hlen : inputShape.length = alignedShape.length)
    (hkept : ∃ axis < inputShape.length,
      isSqueezed (inputShape.getD axis 0) (alignedShape.getD axis 0) = false) :
    Reassociates (collapseReassociationForSqueezedBroadcast inputShape alignedShape) inputShape
      (((List.range inputShape.length).filter fun axis =>
        !isSqueezed (inputShape.getD axis 0) (alignedShape.getD axis 0)).map
          fun axis => inputShape.getD axis 0) := by
  obtain ⟨hflatten, hnonempty, hpending, hsizes⟩ := squeezeInv_foldl hlen
  unfold collapseReassociationForSqueezedBroadcast
  dsimp only
  generalize (inputShape.zip alignedShape).zipIdx.foldl squeezeGroup ([], []) = state at *
  obtain ⟨groups, pending⟩ := state
  dsimp only at hflatten hnonempty hpending hsizes ⊢
  rw [← hsizes]
  unfold extendLastGroup
  split_ifs with hempty
  · rw [List.isEmpty_iff] at hempty
    subst hempty
    exact ⟨by rw [← hflatten, List.append_nil], hnonempty, rfl⟩
  · have hgroups : groups ≠ [] := by
      rintro rfl
      obtain ⟨axis, haxis, hkeep⟩ := hkept
      have hmem : axis ∈ (List.range inputShape.length).filter fun axis =>
          !isSqueezed (inputShape.getD axis 0) (alignedShape.getD axis 0) :=
        List.mem_filter.mpr ⟨List.mem_range.mpr haxis, by simpa using hkeep⟩
      have hnil := List.map_eq_nil_iff.mp hsizes.symm
      rw [hnil] at hmem
      exact absurd hmem List.not_mem_nil
    obtain ⟨init, last, rfl⟩ := (List.eq_nil_or_concat' groups).resolve_left hgroups
    rw [List.getLast?_append, List.getLast?_singleton, Option.some_or, List.dropLast_concat]
    dsimp only
    refine ⟨?_, ?_, ?_⟩
    · rw [← hflatten]
      simp
    · intro group hgroup
      rcases List.mem_append.mp hgroup with hinit | hlast
      · exact hnonempty group (List.mem_append_left _ hinit)
      · rw [List.mem_singleton.mp hlast]
        simp [hnonempty last (by simp)]
    · rw [List.map_append, List.map_append, List.map_singleton, List.map_singleton]
      congr 2
      change groupSize inputShape last = groupSize inputShape (last ++ pending)
      rw [groupSize, groupSize, List.map_append, List.prod_append]
      change groupSize inputShape last = groupSize inputShape last * groupSize inputShape pending
      rw [hpending, mul_one]

/-! ### Two axes merged -/

/-- Single axes, except that `p` and `p + 1` are one group. -/
def mergedGroups (count p : ℕ) : List (List ℕ) :=
  (List.range count).map fun k =>
    if k = p then [k, k + 1] else if k < p then [k] else [k + 1]

/-- Before the merged axes, the merged axes, after them. -/
theorem mergedGroups_eq_append {count p : ℕ} (hp : p < count) :
    mergedGroups count p = (List.range p).map (fun k => [k]) ++ [[p, p + 1]] ++
      (List.range (count - (p + 1))).map fun k => [p + 2 + k] := by
  obtain ⟨rest, rfl⟩ := Nat.exists_eq_add_of_le (Nat.succ_le_of_lt hp)
  have hhead : (List.range p).map (fun k => if k = p then [k, k + 1] else
      if k < p then [k] else [k + 1]) = (List.range p).map fun k => [k] := by
    refine List.map_congr_left fun k hk => ?_
    have := List.mem_range.mp hk
    rw [if_neg (by omega), if_pos this]
  have htail : (List.range rest).map (fun k => if p + 1 + k = p then [p + 1 + k, p + 1 + k + 1] else
      if p + 1 + k < p then [p + 1 + k] else [p + 1 + k + 1]) =
        (List.range rest).map fun k => [p + 2 + k] := by
    refine List.map_congr_left fun k _ => ?_
    rw [if_neg (by omega), if_neg (by omega), show p + 1 + k + 1 = p + 2 + k by omega]
  rw [mergedGroups, Nat.succ_eq_add_one, List.range_add, List.range_succ, List.map_append,
    List.map_append, List.map_map, Nat.add_sub_cancel_left, hhead]
  simp only [Function.comp_def, htail, List.map_singleton, if_true]

theorem flatten_mergedGroups {count p : ℕ} (hp : p < count) :
    (mergedGroups count p).flatten = List.range (count + 1) := by
  rw [mergedGroups_eq_append hp]
  have hsingle : ∀ (f : ℕ → ℕ) (n : ℕ), ((List.range n).map fun k => [f k]).flatten =
      (List.range n).map f := by
    intro f n
    rw [← List.flatMap_def, List.map_eq_flatMap]
  have hid : ((List.range p).map fun k => [k]).flatten = List.range p := by
    rw [hsingle fun k => k, List.map_id']
  rw [List.flatten_append, List.flatten_append, hid, hsingle (p + 2 + ·), List.flatten_singleton]
  rw [show count + 1 = p + 2 + (count - (p + 1)) by omega, List.range_add, List.range_succ,
    List.range_succ]
  simp only [List.append_assoc, List.cons_append, List.nil_append]

/-- **Merging a unit axis into its neighbour** removes it. -/
theorem reassociates_mergedGroups {large : List ℕ} {axis p : ℕ} (haxis : axis < large.length)
    (hone : large.getD axis 0 = 1) (hnear : axis = p ∨ axis = p + 1)
    (hp : p + 1 < large.length) :
    Reassociates (mergedGroups (large.length - 1) p) large (large.eraseIdx axis) := by
  refine ⟨?_, ?_, ?_⟩
  · rw [flatten_mergedGroups (by omega), Nat.sub_add_cancel (by omega)]
  · intro group hgroup
    obtain ⟨k, -, rfl⟩ := List.mem_map.mp hgroup
    split_ifs <;> simp
  · have hlen : (large.eraseIdx axis).length = large.length - 1 := by
      rw [List.length_eraseIdx, if_pos haxis]
    refine ext_getD (by rw [hlen]; simp [mergedGroups]) fun k hk => ?_
    rw [hlen] at hk
    rw [mergedGroups, List.map_map, getD_eraseIdx, getD_map_range _ hk, Function.comp_apply]
    rcases Nat.lt_trichotomy k p with hlt | rfl | hgt
    · rw [if_pos (by omega), if_neg (by omega), if_pos hlt]
      simp
    · rw [if_pos rfl]
      rcases hnear with rfl | rfl
      · rw [if_neg (lt_irrefl _)]
        simp only [List.map_cons, List.map_nil, List.prod_cons, List.prod_nil, hone, one_mul,
          mul_one]
      · rw [if_pos (Nat.lt_succ_self k)]
        simp only [List.map_cons, List.map_nil, List.prod_cons, List.prod_nil, hone, mul_one]
    · rw [if_neg (by omega), if_neg (by omega), if_neg (by omega)]
      simp

/-- The rounds before the removed axis. -/
theorem removedAxisGroups_before {rank axis : ℕ} (haxis : axis < rank) :
    ∀ {fuel index : ℕ}, index ≤ axis → axis - index ≤ fuel →
      removedAxisGroups rank axis fuel index ((List.range index).map fun k => [k]) =
        removedAxisGroups rank axis (fuel - (axis - index)) axis
          ((List.range axis).map fun k => [k]) := by
  intro fuel
  induction fuel with
  | zero =>
      intro index hindex hfuel
      obtain rfl : index = axis := by omega
      rw [Nat.sub_self]
  | succ fuel ih =>
      intro index hindex hfuel
      rcases Nat.eq_or_lt_of_le hindex with rfl | hlt
      · rw [Nat.sub_self, Nat.sub_zero]
      · have hstep : (List.range index).map (fun k => [k]) ++ [[index]] =
            (List.range (index + 1)).map fun k => [k] := by
          rw [List.range_succ, List.map_append, List.map_singleton]
        rw [removedAxisGroups, if_neg (by omega), if_neg (by omega), hstep,
          ih (by omega) (by omega)]
        congr 1
        omega

/-- The rounds after the removed axis. -/
theorem removedAxisGroups_after {rank axis : ℕ} :
    ∀ {fuel index : ℕ} {groups : List (List ℕ)}, axis < index → rank - index ≤ fuel →
      removedAxisGroups rank axis fuel index groups =
        groups ++ (List.range (rank - index)).map fun k => [index + k] := by
  intro fuel
  induction fuel with
  | zero =>
      intro index groups _ hfuel
      rw [removedAxisGroups, Nat.le_zero.mp hfuel]
      simp
  | succ fuel ih =>
      intro index groups haxis hfuel
      rw [removedAxisGroups]
      split_ifs with hdone heq
      · rw [Nat.sub_eq_zero_of_le hdone]
        simp
      · omega
      · omega
      · rw [ih (by omega) (by omega), List.append_assoc]
        congr 1
        rw [show rank - index = rank - (index + 1) + 1 by omega, List.range_succ_eq_map,
          List.map_cons, List.map_map]
        refine congrArg ([index + 0] :: ·) (List.map_congr_left fun k _ => ?_)
        rw [Function.comp_apply, Nat.succ_eq_add_one, show index + 1 + k = index + (k + 1) by omega]

/-- **Collapsing one axis** merges it with the axis before it, or the first with
the second. -/
theorem collapseReassociationForRemovedAxis_eq {rank axis : ℕ} (hrank : 2 ≤ rank)
    (haxis : axis < rank) :
    collapseReassociationForRemovedAxis rank axis = mergedGroups (rank - 1) (axis - 1) := by
  rw [collapseReassociationForRemovedAxis, if_neg (by omega),
    mergedGroups_eq_append (by omega)]
  have hbefore := @removedAxisGroups_before rank axis haxis rank 0 (Nat.zero_le _) (by omega)
  rw [List.range_zero, List.map_nil, Nat.sub_zero] at hbefore
  rw [hbefore]
  obtain ⟨fuel, hfuel⟩ : ∃ fuel, rank - axis = fuel + 1 := ⟨rank - axis - 1, by omega⟩
  rw [hfuel, removedAxisGroups, if_neg (by omega), if_pos rfl]
  cases axis with
  | zero =>
      rw [List.range_zero, List.map_nil, if_pos List.isEmpty_nil,
        removedAxisGroups_after (by omega) (by omega),
        show rank - (0 + 2) = rank - 1 - (0 - 1 + 1) by omega]
  | succ axis =>
      have hextend : extendLastGroup ((List.range (axis + 1)).map fun k => [k]) [axis + 1] =
          (List.range axis).map (fun k => [k]) ++ [[axis, axis + 1]] := by
        rw [List.range_succ, List.map_append, List.map_singleton]
        simp [extendLastGroup]
      rw [if_neg (by simp), hextend, removedAxisGroups_after (by omega) (by omega),
        Nat.add_sub_cancel, show rank - (axis + 1 + 1) = rank - 1 - (axis + 1) by omega]

/-- **Expanding one axis** splits it from the axis after it, or the last from the
one before. -/
theorem expandReassociationForInsertedAxis_eq {rank axis : ℕ} (hrank : 0 < rank)
    (haxis : axis ≤ rank) :
    expandReassociationForInsertedAxis rank axis =
      mergedGroups rank (if axis = rank then axis - 1 else axis) := by
  unfold expandReassociationForInsertedAxis
  dsimp only
  split_ifs with hlast
  · subst hlast
    obtain ⟨rank, rfl⟩ : ∃ rank, axis = rank + 1 := ⟨axis - 1, by omega⟩
    rw [mergedGroups_eq_append (by omega), Nat.add_sub_cancel, Nat.sub_self, List.range_zero,
      List.map_nil, List.append_nil]
    have hsingles : (List.range (rank + 1)).map (fun inputAxis =>
        if inputAxis = rank + 1 then [inputAxis, inputAxis + 1]
        else if inputAxis < rank + 1 then [inputAxis] else [inputAxis + 1]) =
          (List.range (rank + 1)).map fun k => [k] := by
      refine List.map_congr_left fun k hk => ?_
      have := List.mem_range.mp hk
      rw [if_neg (by omega), if_pos this]
    rw [hsingles, List.range_succ, List.map_append, List.map_singleton]
    simp [extendLastGroup]
  · rfl

/-- **The groups that collapse a unit axis are a reassociation.** -/
theorem reassociates_removedAxis {shape : List ℕ} {axis : ℕ} (hrank : 2 ≤ shape.length)
    (haxis : axis < shape.length) :
    Reassociates (collapseReassociationForRemovedAxis shape.length axis) (shape.set axis 1)
      (shape.eraseIdx axis) := by
  have hmerged := @reassociates_mergedGroups (shape.set axis 1) axis (axis - 1)
    (by rwa [List.length_set]) (by rw [getD_set_of_lt haxis, if_pos rfl])
    (by omega) (by rw [List.length_set]; omega)
  rw [List.length_set, List.eraseIdx_set_eq, ← collapseReassociationForRemovedAxis_eq hrank haxis]
    at hmerged
  exact hmerged

/-- **The groups that expand a unit axis are a reassociation**, unless there is no
axis to split it from. -/
theorem reassociates_insertedAxis {shape : List ℕ} {axis : ℕ} (hrank : 0 < shape.length)
    (haxis : axis ≤ shape.length) :
    Reassociates (expandReassociationForInsertedAxis shape.length axis) (shape.insertIdx axis 1)
      shape := by
  have hlen : (shape.insertIdx axis 1).length = shape.length + 1 :=
    List.length_insertIdx_of_le_length haxis 1
  have hmerged := @reassociates_mergedGroups (shape.insertIdx axis 1) axis
    (if axis = shape.length then axis - 1 else axis) (by omega) (getD_insertIdx_self haxis 1)
    (by split_ifs <;> omega) (by split_ifs <;> omega)
  rw [hlen, Nat.add_sub_cancel, List.eraseIdx_insertIdx_self,
    ← expandReassociationForInsertedAxis_eq hrank haxis] at hmerged
  exact hmerged

end Knok.Lowering
