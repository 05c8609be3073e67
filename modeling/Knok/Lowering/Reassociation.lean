import Mathlib
import Knok.Lowering.Pieces
import Knok.MovementRule

/-!
# The reassociations of the lowering

`take` collapses the axis it has sliced, `stack` expands a new one, and a
broadcast collapses the unit dimensions that have to grow.  Each computes the
groups of its reassociation with a loop of its own.

### Design decisions

* **Uses.**  `takeUses`, `stackUses` and `broadcastUses` list the reassociations
  that the three functions hand to the dialect, under the conditions of the code;
  `take_eq_of_use`, `stack_eq_of_uses` and `squeeze_eq_of_use` say that they do.
-/

namespace Knok.Lowering

open Arrays Control

variable {R : Type}

/-- A reassociation: the groups, the shape of the higher rank and the shape of the
lower rank. -/
structure ReassociationUse where
  groups : List (List ℕ)
  large : List ℕ
  small : List ℕ

/-- Each group is a run of consecutive axes, the groups cover the axes of the
large shape in order, there is one for each axis of the small shape, and its
dimensions multiply to that axis's. -/
structure ReassociationUse.Valid (use : ReassociationUse) : Prop where
  consecutive : ∀ group ∈ use.groups, ∃ start, group = List.range' start group.length
  flatten : use.groups.flatten = List.range use.large.length
  length : use.groups.length = use.small.length
  products : ∀ k < use.small.length,
    ((use.groups.getD k []).map fun axis => use.large.getD axis 0).prod = use.small.getD k 0

/-- A part of a list of consecutive numbers is consecutive. -/
theorem eq_range'_of_append {before group after : List ℕ} {count : ℕ}
    (h : before ++ group ++ after = List.range count) :
    group = List.range' before.length group.length := by
  refine List.ext_getElem List.length_range'.symm fun k hk hk' => ?_
  have hlt : before.length + k < (before ++ group ++ after).length := by
    rw [List.length_append, List.length_append]
    omega
  have hentry : (before ++ group ++ after)[before.length + k] = group[k] := by
    rw [List.getElem_append_left (by rw [List.length_append]; omega),
      List.getElem_append_right (Nat.le_add_right _ _)]
    simp only [Nat.add_sub_cancel_left]
  rw [← hentry, List.getElem_range', Nat.one_mul]
  simp only [h, List.getElem_range]

/-- What the verifier of the dialect checks. -/
theorem valid_of_reassociates {use : ReassociationUse}
    (h : Reassociates use.groups use.large use.small) : use.Valid := by
  obtain ⟨hflatten, -, hsmall⟩ := h
  have hlength : use.groups.length = use.small.length := by rw [hsmall, List.length_map]
  refine ⟨fun group hgroup => ?_, hflatten, hlength, fun k hk => ?_⟩
  · obtain ⟨before, after, hgroups⟩ := List.append_of_mem hgroup
    rw [hgroups, List.flatten_append, List.flatten_cons, ← List.append_assoc] at hflatten
    exact ⟨_, eq_range'_of_append hflatten⟩
  · rw [hsmall] at hk ⊢
    rw [List.length_map] at hk
    rw [List.getD_eq_getElem _ _ hk, List.getD_eq_getElem _ _ (by rwa [List.length_map]),
      List.getElem_map]

/-! ## The uses -/

/-- The collapse of `take`; a vector is reshaped to a scalar instead. -/
def takeUses (shape : List ℕ) (axis : ℕ) : List ReassociationUse :=
  let sliced := shape.set axis 1
  let output := sliced.eraseIdx axis
  if sliced = output ∨ output.length = 0 then []
  else [⟨collapseReassociationForRemovedAxis sliced.length axis, sliced, output⟩]

/-- The expansions of `stack`, one for each operand. -/
def stackUses (lhs rhs : List ℕ) (axis : ℕ) : List ReassociationUse :=
  [⟨expandReassociationForInsertedAxis lhs.length axis, lhs.insertIdx axis 1, lhs⟩,
    ⟨expandReassociationForInsertedAxis rhs.length axis, lhs.insertIdx axis 1, rhs⟩]

/-- The collapse of a broadcast that has unit dimensions to grow and others. -/
def broadcastUses (shape target : List ℕ) : List ReassociationUse :=
  let padding := target.length - shape.length
  let squeezed (index : ℕ) : Bool :=
    isSqueezed (shape.getD index 0) (target.getD (padding + index) 0)
  let kept := ((List.range shape.length).filter fun index => !squeezed index).map
    fun index => shape.getD index 0
  if ((List.range shape.length).filter squeezed).isEmpty then []
  else if kept.isEmpty then []
  else [⟨collapseReassociationForSqueezedBroadcast shape (target.drop padding), shape, kept⟩]

/-- `take` collapses its slice by its use. -/
theorem take_eq_of_use {input sliced : Value R} {axis index : ℕ} {use : ReassociationUse}
    (hsliced : sliceAxis input axis index 1 = .ok sliced)
    (huse : use ∈ takeUses input.ty.shape axis) :
    sliced.ty.shape = use.large ∧
      take input axis index =
        appendCollapseShape sliced ⟨input.ty.elem, use.small⟩ use.groups := by
  have hty : sliced.ty = ⟨input.ty.elem, input.ty.shape.set axis 1⟩ := by
    simp only [sliceAxis, slice, appendTensorExtractSlice, except_bind_eq_ok_iff,
      resultTensor_eq_ok_iff] at hsliced
    obtain ⟨-, -, -, -, -, -, -, -, -, -, _, rfl⟩ := hsliced
    rfl
  unfold takeUses at huse
  dsimp only at huse
  split_ifs at huse with hnone
  · cases huse
  · rw [List.mem_singleton] at huse
    subst huse
    rw [not_or] at hnone
    refine ⟨by rw [hty], ?_⟩
    have hne : sliced.ty ≠ ⟨sliced.ty.elem, sliced.ty.shape.eraseIdx axis⟩ := by
      rw [hty]
      exact fun h => hnone.1 (congrArg TensorType.shape h)
    have hrank : ¬ (⟨sliced.ty.elem, sliced.ty.shape.eraseIdx axis⟩ : TensorType).rank = 0 := by
      rw [hty]
      exact hnone.2
    simp only [take, hsliced, bind, Except.bind, if_neg hne, if_neg hrank]
    rw [hty]
    rfl

/-- `stack` expands its operands by its uses. -/
theorem stack_eq_of_uses (lhs rhs : Value R) (axis : ℕ) :
    ∃ first second, stackUses lhs.ty.shape rhs.ty.shape axis = [first, second] ∧
      stack lhs rhs axis = (do
        let left ← appendExpandShape lhs ⟨lhs.ty.elem, first.large⟩ first.groups
        let right ← appendExpandShape rhs ⟨lhs.ty.elem, second.large⟩ second.groups
        concat left right axis) :=
  ⟨_, _, rfl, rfl⟩

/-- A broadcast collapses its operand by its use. -/
theorem squeeze_eq_of_use {input : Value R} {ty : TensorType} {use : ReassociationUse}
    (huse : use ∈ broadcastUses input.ty.shape ty.shape) :
    use.large = input.ty.shape ∧ ∃ dimensions, squeezeSingletonBroadcastDims input ty = do
      let squeezed ← appendCollapseShape input ⟨input.ty.elem, use.small⟩ use.groups
      return (squeezed, dimensions) := by
  unfold broadcastUses at huse
  dsimp only at huse
  split_ifs at huse with hnone hempty
  · cases huse
  · cases huse
  · rw [List.mem_singleton] at huse
    subst huse
    exact ⟨rfl, _, (if_neg hnone).trans (if_neg hempty)⟩

/-! ## Validity -/

/-- The calls whose lowering uses reassociations. -/
inductive ReassociationCall
  | take (input : TensorType) (axis index : ℕ)
  | stack (lhs rhs : TensorType) (axis : ℕ)
  | broadcast (input target : TensorType)

/-- The type rules accept the call; a broadcast passes the check that the lowering
makes before it collapses anything. -/
def ReassociationCall.Accepted : ReassociationCall → Prop
  | .take input axis index => ∃ results, inferCallResults (.take axis index) [input] = .ok results
  | .stack lhs rhs axis => ∃ results, inferCallResults (.stack axis) [lhs, rhs] = .ok results
  | .broadcast input target => ensureBroadcastable input target = .ok ()

/-- The reassociations of a call. -/
def ReassociationCall.uses : ReassociationCall → List ReassociationUse
  | .take input axis _ => takeUses input.shape axis
  | .stack lhs rhs axis => stackUses lhs.shape rhs.shape axis
  | .broadcast input target => broadcastUses input.shape target.shape

/-- The call does not stack scalars. -/
def ReassociationCall.ExpandsAxes : ReassociationCall → Prop
  | .stack lhs _ _ => lhs.rank ≠ 0
  | _ => True

theorem takeUses_valid {shape : List ℕ} {axis : ℕ} (haxis : axis < shape.length)
    {use : ReassociationUse} (huse : use ∈ takeUses shape axis) : use.Valid := by
  unfold takeUses at huse
  dsimp only at huse
  split_ifs at huse with hnone
  · cases huse
  · rw [List.mem_singleton] at huse
    subst huse
    rw [not_or, List.eraseIdx_set_eq, List.length_eraseIdx, if_pos haxis] at hnone
    refine valid_of_reassociates ?_
    dsimp only
    rw [List.length_set, List.eraseIdx_set_eq]
    exact reassociates_removedAxis (by omega) haxis

theorem broadcastUses_valid {shape target : List ℕ} (h : BroadcastsTo shape target)
    {use : ReassociationUse} (huse : use ∈ broadcastUses shape target) : use.Valid := by
  have hlen : shape.length = (target.drop (target.length - shape.length)).length := by
    rw [List.length_drop]
    have := h.1
    omega
  unfold broadcastUses at huse
  dsimp only at huse
  simp only [← getD_drop] at huse
  split_ifs at huse with hnone hempty
  · cases huse
  · cases huse
  · rw [List.mem_singleton] at huse
    subst huse
    refine valid_of_reassociates (reassociates_squeezed hlen ?_)
    rw [List.isEmpty_iff, List.map_eq_nil_iff] at hempty
    obtain ⟨index, hindex⟩ := List.exists_mem_of_ne_nil _ hempty
    obtain ⟨hlt, hkept⟩ := List.mem_filter.mp hindex
    exact ⟨index, List.mem_range.mp hlt, by simpa using hkept⟩

/-- **The reassociations of the lowering are valid**, except those of a stack of
scalars: a tensor without axes has no group to expand, and the loop makes one. -/
theorem reassociations_valid_iff (call : ReassociationCall) (h : call.Accepted) :
    (∀ use ∈ call.uses, use.Valid) ↔ call.ExpandsAxes := by
  cases call with
  | take input axis index =>
      obtain ⟨results, hok⟩ := h
      have haxis : axis < input.shape.length := by
        simp only [inferCallResults, takeResultType, except_bind_eq_ok_iff, expectUnary_eq_ok_iff,
          expectAxis_eq_ok_iff] at hok
        obtain ⟨_, hargs, _, ⟨-, hlt, -⟩, -⟩ := hok
        cases hargs
        exact hlt
      exact iff_of_true (fun use huse => takeUses_valid haxis huse) trivial
  | stack lhs rhs axis =>
      obtain ⟨results, hok⟩ := h
      obtain ⟨rfl, haxis⟩ : lhs = rhs ∧ axis ≤ lhs.shape.length := by
        simp only [inferCallResults, stackResultType, except_bind_eq_ok_iff,
          expectBinary_eq_ok_iff, failIf_eq_ok_iff, bne_eq_false_iff_eq, exists_const] at hok
        obtain ⟨⟨_, _⟩, hargs, _, ⟨hsame, hle, -⟩, -⟩ := hok
        cases hargs
        exact ⟨hsame, Nat.not_lt.mp (of_decide_eq_false hle)⟩
      change (∀ use ∈ stackUses lhs.shape lhs.shape axis, use.Valid) ↔ lhs.shape.length ≠ 0
      constructor
      · intro hvalid hzero
        have hlength := (hvalid _ List.mem_cons_self).length
        rw [hzero] at hlength haxis
        obtain rfl : axis = 0 := Nat.le_zero.mp haxis
        exact absurd hlength Nat.one_ne_zero
      · intro hrank use huse
        have huse : use = ⟨expandReassociationForInsertedAxis lhs.shape.length axis,
            lhs.shape.insertIdx axis 1, lhs.shape⟩ := by
          simpa [stackUses] using huse
        subst huse
        exact valid_of_reassociates (reassociates_insertedAxis (Nat.pos_of_ne_zero hrank) haxis)
  | broadcast input target =>
      obtain ⟨-, hto⟩ := ensureBroadcastable_eq_ok_iff.mp h
      exact iff_of_true (fun use huse => broadcastUses_valid hto huse) trivial

theorem reassociations_valid_iff_rows :
    (∀ use ∈ (ReassociationCall.stack ⟨.f32, [2]⟩ ⟨.f32, [2]⟩ 1).uses, use.Valid) ↔
      (ReassociationCall.stack ⟨.f32, [2]⟩ ⟨.f32, [2]⟩ 1).ExpandsAxes :=
  reassociations_valid_iff (.stack ⟨.f32, [2]⟩ ⟨.f32, [2]⟩ 1) ⟨[⟨.f32, [2, 2]⟩], by decide⟩

/-- Two scalars can be stacked; the one group of each expansion has no axis to
expand. -/
theorem not_valid_stack_scalars :
    (ReassociationCall.stack ⟨.f32, []⟩ ⟨.f32, []⟩ 0).Accepted ∧
      ¬ ∀ use ∈ (ReassociationCall.stack ⟨.f32, []⟩ ⟨.f32, []⟩ 0).uses, use.Valid :=
  ⟨⟨[⟨.f32, [2]⟩], by decide⟩, fun h => absurd (h _ List.mem_cons_self).length Nat.one_ne_zero⟩

end Knok.Lowering
