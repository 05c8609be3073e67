import Mathlib
import Knok.Lowering.Dialect
import Knok.Lowering.Shape

/-!
# Lowering a broadcast

A broadcast is lowered in one of two ways.  A value with one element is
extracted and filled into the result; any other is repeated by
`linalg.broadcast`, after its unit dimensions that have to grow have been
collapsed away.  The same holds of the broadcast along one axis that brings a
reduced tensor back.

Both compute NumPy's broadcast, when MLIR can parse the type of the result.
There is one other way to go wrong, the element count: it is a wrapping product,
and a tensor of more than `2 ^ 64` elements can be taken for one with a single
element.
-/

namespace Knok.Lowering

open Arrays Control

variable {R : Type}

/-! ## The code -/

/-- The element at the first position. -/
def extractFirstScalar (input : Value R) : Except Error (Value R) :=
  appendTensorExtract input (List.replicate input.ty.rank 0)

/-- A value with one element, as a scalar. -/
def coerceToScalar (value : Value R) : Except Error (Value R) :=
  match value.kind with
  | .scalar => .ok value
  | .tensor =>
      if value.ty.rank = 0 ∨ elementCount value.ty = 1 then extractFirstScalar value
      else .error (.msg s!"expected scalar-compatible tensor, got {value.ty.debug}")

/-- A tensor filled with a value that has one element. -/
def splat (scalar : Value R) (ty : TensorType) : Except Error (Value R) := do
  let scalar ← coerceToScalar scalar
  let empty ← appendTensorEmpty ty
  appendLinalgFill scalar empty ty

/-- `linalg.broadcast` into a new tensor. -/
def emitLinalgBroadcast (input : Value R) (ty : TensorType) (dimensions : List ℕ) :
    Except Error (Value R) := do
  let empty ← appendTensorEmpty ty
  appendLinalgBroadcast input empty ty dimensions

/-- Collapses the unit dimensions that have to grow; the operand and the
dimensions to add. -/
def squeezeSingletonBroadcastDims (input : Value R) (ty : TensorType) :
    Except Error (Value R × List ℕ) := do
  let padding := ty.rank - input.ty.rank
  let singletonDimensions := (List.range input.ty.rank).filter fun index =>
    isSqueezed (input.ty.dim index) (ty.dim (padding + index))
  let dimensions := List.range padding ++ singletonDimensions.map (padding + ·)
  if singletonDimensions.isEmpty then return (input, dimensions)
  let squeezedShape := ((List.range input.ty.rank).filter fun index =>
    !isSqueezed (input.ty.dim index) (ty.dim (padding + index))).map input.ty.dim
  if squeezedShape.isEmpty then
    return (← extractFirstScalar input, List.range ty.rank)
  let groups :=
    collapseReassociationForSqueezedBroadcast input.ty.shape (ty.shape.drop padding)
  let squeezed ← appendCollapseShape input ⟨input.ty.elem, squeezedShape⟩ groups
  return (squeezed, dimensions)

/-- Broadcasts a value to a type. -/
def broadcast (input : Value R) (ty : TensorType) : Except Error (Value R) :=
  if input.ty = ty ∧ input.kind = .tensor then .ok input
  else if input.kind = .scalar then splat input ty
  else if input.ty.rank = 0 then splat input ty
  else if elementCount input.ty = 1 then do
    let scalar ← extractFirstScalar input
    splat scalar ty
  else do
    ensureBroadcastable input.ty ty
    let (input, dimensions) ← squeezeSingletonBroadcastDims input ty
    emitLinalgBroadcast input ty dimensions

/-- Broadcasts a reduced value along the axis that was reduced. -/
def broadcastAlongAxis (input : Value R) (ty : TensorType) (axis : ℕ) :
    Except Error (Value R) :=
  if input.ty = ty ∧ input.kind = .tensor then .ok input
  else if input.kind = .scalar then splat input ty
  else if input.ty.rank = 0 ∨ elementCount input.ty = 1 then do
    let scalar ← coerceToScalar input
    splat scalar ty
  else do
    ensureAxisBroadcastable input.ty ty axis
    let dimensions ← axisBroadcastDimensions input.ty.rank ty.rank axis
    emitLinalgBroadcast input ty dimensions

/-! ## One element -/

/-- The first position of an array. -/
def firstPosition (shape : List ℕ) : List ℕ := List.replicate shape.length 0

theorem inBounds_firstPosition {shape : List ℕ} (h : shape.prod ≠ 0) :
    InBounds (firstPosition shape) shape := by
  refine inBounds_iff_getD.mpr ⟨by simp [firstPosition], fun axis haxis => ?_⟩
  rw [firstPosition, List.getD_replicate _ haxis, List.getD_eq_getElem _ _ haxis]
  refine Nat.pos_of_ne_zero fun hzero => h (List.prod_eq_zero ?_)
  rw [← hzero]
  exact List.getElem_mem haxis

theorem prod_ne_zero_of_elementCount {ty : TensorType} (h : elementCount ty = 1) :
    ty.shape.prod ≠ 0 := by
  intro hzero
  rw [elementCount, usizeProduct_eq, hzero] at h
  exact absurd h (by norm_num)

theorem extractFirstScalar_eq {input : Value R} {x : List ℕ → R} (hx : input.Holds x)
    (hkind : input.kind = .tensor) (hne : input.ty.shape.prod ≠ 0) :
    extractFirstScalar input =
      .ok (.scalar input.ty.elem (.written (x (firstPosition input.ty.shape)))) := by
  have hbounds := inBounds_firstPosition hne
  have hcell := hx _ hbounds
  unfold extractFirstScalar appendTensorExtract
  rw [TensorType.rank, show List.replicate input.ty.shape.length 0 =
    firstPosition input.ty.shape from rfl, hcell]
  simp [verify, failIf, hkind, hbounds, pure, Except.pure, bind, Except.bind]

theorem exists_coerceToScalar {input : Value R} {x : List ℕ → R} (hx : input.Holds x)
    (hone : input.ty.rank = 0 ∨ elementCount input.ty = 1) :
    ∃ value, coerceToScalar input = .ok value ∧
      IsScalar value input.ty.elem (x (firstPosition input.ty.shape)) := by
  have hne : input.ty.shape.prod ≠ 0 := by
    rcases hone with hrank | hcount
    · rw [List.eq_nil_of_length_eq_zero hrank]
      exact one_ne_zero
    · exact prod_ne_zero_of_elementCount hcount
  unfold coerceToScalar
  cases hkind : input.kind with
  | scalar =>
      have hnil := input.shape_of_scalar hkind
      refine ⟨input, rfl, hkind, rfl, ?_⟩
      have hcell := hx [] (by rw [hnil]; exact .nil)
      rw [hcell, hnil]
      rfl
  | tensor =>
      dsimp only
      rw [if_pos hone, extractFirstScalar_eq hx hkind hne]
      exact ⟨_, rfl, rfl, rfl, rfl⟩

theorem splat_scalar {scalar : Value R} {x : R} {ty : TensorType}
    (h : IsScalar scalar ty.elem x) (hfit : DimsFit ty.shape) :
    splat scalar ty = .ok (.tensor ty (fun _ => .written x) hfit) := by
  unfold splat coerceToScalar
  rw [h.1]
  exact appendLinalgFill_empty h hfit

/-- A value with one element fills the result with it. -/
theorem splat_eq {input : Value R} {x : List ℕ → R} {ty : TensorType} (hx : input.Holds x)
    (hone : input.ty.rank = 0 ∨ elementCount input.ty = 1) (helem : input.ty.elem = ty.elem)
    (hfit : DimsFit ty.shape) :
    splat input ty =
      .ok (.tensor ty (fun _ => .written (x (firstPosition input.ty.shape))) hfit) := by
  obtain ⟨value, hvalue, hscalar⟩ := exists_coerceToScalar hx hone
  unfold splat
  rw [hvalue]
  exact appendLinalgFill_empty (helem ▸ hscalar) hfit

theorem emitLinalgBroadcast_eq {input : Value R} {ty : TensorType} {dimensions : List ℕ}
    (hkind : input.kind = .tensor) (helem : input.ty.elem = ty.elem)
    (hlen : input.ty.rank + dimensions.length = ty.rank)
    (hlt : ∀ axis ∈ dimensions, axis < ty.rank)
    (hkept : input.ty.shape = (keptAxes ty.rank dimensions).map ty.dim) (hfit : DimsFit ty.shape) :
    emitLinalgBroadcast input ty dimensions =
      .ok (.tensor ty (fun i =>
        input.cell ((keptAxes ty.rank dimensions).map fun axis => i.getD axis 0)) hfit) := by
  simp only [emitLinalgBroadcast, bind, Except.bind, appendTensorEmpty_of hfit]
  exact appendLinalgBroadcast_eq hkind rfl rfl helem hlen hlt hkept

/-! ## Squeezing -/

/-- The axes of the input that are not collapsed away. -/
def squeezedAxes (inputTy ty : TensorType) : List ℕ :=
  (List.range inputTy.rank).filter fun index =>
    !isSqueezed (inputTy.dim index) (ty.dim (ty.rank - inputTy.rank + index))

/-- The dimensions that `linalg.broadcast` has to add. -/
def addedDimensions (inputTy ty : TensorType) : List ℕ :=
  List.range (ty.rank - inputTy.rank) ++
    ((List.range inputTy.rank).filter fun index =>
      isSqueezed (inputTy.dim index) (ty.dim (ty.rank - inputTy.rank + index))).map
        (ty.rank - inputTy.rank + ·)

/-- A well-formed list of added dimensions for an operand shape. -/
structure AddsDimensions (operand : List ℕ) (ty : TensorType) (dimensions : List ℕ) : Prop where
  increasing : dimensions.Pairwise (· < ·)
  lt_rank : ∀ axis ∈ dimensions, axis < ty.rank
  length : operand.length + dimensions.length = ty.rank
  kept : operand = (keptAxes ty.rank dimensions).map ty.dim

section Squeeze

variable {inputTy ty : TensorType}

theorem mem_addedDimensions_iff {index : ℕ} (hindex : index < inputTy.rank) :
    ty.rank - inputTy.rank + index ∈ addedDimensions inputTy ty ↔
      isSqueezed (inputTy.dim index) (ty.dim (ty.rank - inputTy.rank + index)) = true := by
  unfold addedDimensions
  simp only [List.mem_append, List.mem_range, List.mem_map, List.mem_filter]
  constructor
  · rintro (hlt | ⟨other, ⟨-, hsqueezed⟩, heq⟩)
    · omega
    · rwa [Nat.add_left_cancel heq] at hsqueezed
  · exact fun hsqueezed => .inr ⟨index, ⟨hindex, hsqueezed⟩, rfl⟩

/-- The axes that are not added are those of the squeezed operand. -/
theorem keptAxes_addedDimensions (hle : inputTy.rank ≤ ty.rank) :
    keptAxes ty.rank (addedDimensions inputTy ty) =
      (squeezedAxes inputTy ty).map (ty.rank - inputTy.rank + ·) := by
  unfold keptAxes squeezedAxes
  conv_lhs => rw [show ty.rank = ty.rank - inputTy.rank + inputTy.rank by omega]
  rw [List.range_add, List.filter_append, List.filter_map]
  have hleading : (List.range (ty.rank - inputTy.rank)).filter
      (fun axis => decide (axis ∉ addedDimensions inputTy ty)) = [] := by
    refine List.filter_eq_nil_iff.mpr fun axis haxis => ?_
    rw [decide_eq_true_iff, not_not]
    exact List.mem_append_left _ haxis
  rw [hleading, List.nil_append]
  congr 1
  refine List.filter_congr fun index hindex => ?_
  have hiff := @mem_addedDimensions_iff inputTy ty index (List.mem_range.mp hindex)
  rw [Function.comp_apply]
  cases hsqueezed : isSqueezed (inputTy.dim index) (ty.dim (ty.rank - inputTy.rank + index)) <;>
    simp [hiff, hsqueezed]

/-- A kept dimension is the target's. -/
theorem dim_of_mem_squeezedAxes (hto : BroadcastsTo inputTy.shape ty.shape) {index : ℕ}
    (hindex : index ∈ squeezedAxes inputTy ty) :
    inputTy.dim index = ty.dim (ty.rank - inputTy.rank + index) := by
  obtain ⟨hlt, hkeep⟩ := List.mem_filter.mp hindex
  have hdim : inputTy.dim index = ty.dim (ty.rank - inputTy.rank + index) ∨
      inputTy.dim index = 1 := (broadcastsTo_iff_getD.mp hto).2 index (List.mem_range.mp hlt)
  simp [isSqueezed] at hkeep
  omega

theorem addsDimensions (hto : BroadcastsTo inputTy.shape ty.shape) :
    AddsDimensions ((squeezedAxes inputTy ty).map inputTy.dim) ty
      (addedDimensions inputTy ty) := by
  have hle : inputTy.rank ≤ ty.rank := hto.1
  refine ⟨?_, ?_, ?_, ?_⟩
  · unfold addedDimensions
    rw [List.pairwise_append]
    refine ⟨List.pairwise_lt_range, ?_, ?_⟩
    · rw [List.pairwise_map]
      exact (List.pairwise_lt_range.filter _).imp fun h => Nat.add_lt_add_left h _
    · intro axis haxis other hother
      obtain ⟨index, -, rfl⟩ := List.mem_map.mp hother
      have := List.mem_range.mp haxis
      omega
  · intro axis haxis
    unfold addedDimensions at haxis
    simp only [List.mem_append, List.mem_range, List.mem_map, List.mem_filter] at haxis
    rcases haxis with hlt | ⟨index, ⟨hindex, -⟩, rfl⟩ <;> omega
  · have hsplit := List.length_eq_length_filter_add (l := List.range inputTy.rank) fun index =>
      isSqueezed (inputTy.dim index) (ty.dim (ty.rank - inputTy.rank + index))
    rw [List.length_range] at hsplit
    unfold addedDimensions squeezedAxes
    rw [List.length_map, List.length_append, List.length_map, List.length_range]
    omega
  · rw [keptAxes_addedDimensions hle, List.map_map]
    exact List.map_congr_left fun index hindex => dim_of_mem_squeezedAxes hto hindex

/-- The coordinates that the squeezed operand is read at have the number of the
position that broadcasting reads. -/
theorem ravel_squeezedAxes (hto : BroadcastsTo inputTy.shape ty.shape) {i : List ℕ}
    (hi : InBounds i ty.shape) :
    ravel ((squeezedAxes inputTy ty).map inputTy.dim)
        ((squeezedAxes inputTy ty).map fun index => i.getD (ty.rank - inputTy.rank + index) 0) =
      ravel inputTy.shape (broadcastIndex inputTy.shape i) := by
  have hlen : i.length = ty.rank := hi.length_eq
  have hle : inputTy.shape.length ≤ i.length := hlen ▸ hto.1
  have hcoord : ∀ index < inputTy.rank, (broadcastIndex inputTy.shape i).getD index 0 =
      if inputTy.dim index = 1 then 0 else i.getD (ty.rank - inputTy.rank + index) 0 :=
    fun index hindex => by rw [getD_broadcastIndex hle hindex, hlen]; rfl
  have hsqueezed : ∀ index ∈ List.range inputTy.rank,
      (!isSqueezed (inputTy.dim index) (ty.dim (ty.rank - inputTy.rank + index))) = false →
        inputTy.dim index = 1 ∧ (broadcastIndex inputTy.shape i).getD index 0 = 0 := by
    intro index hindex hsqueezed
    simp [isSqueezed] at hsqueezed
    rw [hcoord index (List.mem_range.mp hindex), if_pos hsqueezed.1]
    exact ⟨hsqueezed.1, rfl⟩
  have hcoords : (squeezedAxes inputTy ty).map
        (fun index => i.getD (ty.rank - inputTy.rank + index) 0) =
      (squeezedAxes inputTy ty).map fun index =>
        (broadcastIndex inputTy.shape i).getD index 0 := by
    refine List.map_congr_left fun index hindex => ?_
    have hlt := List.mem_range.mp (List.mem_filter.mp hindex).1
    have hdim := dim_of_mem_squeezedAxes hto hindex
    rw [hcoord index hlt]
    split_ifs with hone
    · have hle' : inputTy.rank ≤ ty.rank := hto.1
      have hbound := hi.getD_lt (show ty.rank - inputTy.rank + index < ty.rank by omega)
      have : ty.shape.getD (ty.rank - inputTy.rank + index) 0 = 1 := hdim.symm.trans hone
      omega
    · rfl
  rw [hcoords]
  have hdims : (List.range inputTy.rank).map inputTy.dim = inputTy.shape := map_getD_range _
  have hposition : (List.range inputTy.rank).map
      (fun index => (broadcastIndex inputTy.shape i).getD index 0) =
        broadcastIndex inputTy.shape i := by
    have hmap := map_getD_range (broadcastIndex inputTy.shape i)
    rwa [length_broadcastIndex hle] at hmap
  have hravel := (ravel_filter hsqueezed).2
  rw [hdims, hposition] at hravel
  exact hravel

theorem inBounds_squeezedAxes (hto : BroadcastsTo inputTy.shape ty.shape) {i : List ℕ}
    (hi : InBounds i ty.shape) :
    InBounds ((squeezedAxes inputTy ty).map fun index =>
        i.getD (ty.rank - inputTy.rank + index) 0) ((squeezedAxes inputTy ty).map inputTy.dim) := by
  rw [InBounds, List.forall₂_map_left_iff, List.forall₂_map_right_iff, List.forall₂_same]
  intro index hindex
  have hlt := List.mem_range.mp (List.mem_filter.mp hindex).1
  rw [dim_of_mem_squeezedAxes hto hindex]
  have hle : inputTy.rank ≤ ty.rank := hto.1
  exact hi.getD_lt (by unfold TensorType.rank at *; omega)

/-- Some axis is kept, unless every dimension is one. -/
theorem exists_mem_squeezedAxes (hcount : elementCount inputTy ≠ 1) :
    ∃ index, index ∈ squeezedAxes inputTy ty := by
  by_contra hnone
  push Not at hnone
  refine hcount ?_
  have hones : ∀ dim ∈ inputTy.shape, dim = 1 := by
    intro dim hdim
    obtain ⟨index, hindex, rfl⟩ := List.mem_iff_getElem.mp hdim
    by_contra hne
    refine hnone index (List.mem_filter.mpr ⟨List.mem_range.mpr hindex, ?_⟩)
    have : inputTy.dim index ≠ 1 := by
      rwa [TensorType.dim, List.getD_eq_getElem _ _ hindex]
    simp [isSqueezed, this]
  rw [elementCount, usizeProduct_eq, List.prod_eq_one hones]
  rfl

end Squeeze

/-! ## One axis -/

/-- Without one axis. -/
theorem map_keptAxes_singleton {i : List ℕ} {axis : ℕ} (haxis : axis < i.length) :
    (keptAxes i.length [axis]).map (fun axis => i.getD axis 0) = i.eraseIdx axis := by
  have hkept : keptAxes i.length [axis] = (List.range i.length).eraseIdx axis := by
    have hidx : (List.range i.length).idxOf axis = axis := by
      have := List.Nodup.idxOf_getElem (@List.nodup_range i.length) axis (by simpa using haxis)
      rwa [List.getElem_range] at this
    calc keptAxes i.length [axis] = (List.range i.length).erase axis := by
          rw [List.nodup_range.erase_eq_filter, keptAxes]
          exact List.filter_congr fun other _ => by by_cases h : other = axis <;> simp [h]
      _ = (List.range i.length).eraseIdx axis := by
          rw [← List.eraseIdx_idxOf_eq_erase, hidx]
  rw [hkept, ← List.eraseIdx_map, map_getD_range]

section Axis

variable {inputTy ty : TensorType} {axis : ℕ}

theorem rank_add_one (haxis : axis < ty.rank) (hshape : inputTy.shape = ty.shape.eraseIdx axis) :
    inputTy.rank + 1 = ty.rank := by
  unfold TensorType.rank at haxis ⊢
  rw [hshape, List.length_eraseIdx, if_pos haxis]
  omega

theorem axisBroadcastDimensions_eq (haxis : axis < ty.rank)
    (hshape : inputTy.shape = ty.shape.eraseIdx axis) :
    axisBroadcastDimensions inputTy.rank ty.rank axis = .ok [axis] := by
  have hrank := rank_add_one haxis hshape
  have hlt : ¬ ty.rank ≤ axis := Nat.not_le.mpr haxis
  simp [axisBroadcastDimensions, failIf, hrank, hlt, bind, Except.bind, pure, Except.pure]

theorem addsDimensions_axis (haxis : axis < ty.rank)
    (hshape : inputTy.shape = ty.shape.eraseIdx axis) :
    AddsDimensions inputTy.shape ty [axis] := by
  refine ⟨List.pairwise_singleton _ _, ?_, rank_add_one haxis hshape, ?_⟩
  · intro other hother
    rwa [List.mem_singleton.mp hother]
  · rw [hshape]
    exact (map_keptAxes_singleton haxis).symm

end Axis

/-! ## More than one element -/

section Spec

variable {input : Value R} {x : List ℕ → R} {ty : TensorType}

/-- **Squeezing succeeds with well-formed dimensions, and the squeezed operand
holds what broadcasting reads.** -/
theorem exists_squeezeSingletonBroadcastDims (hx : input.Holds x)
    (hto : BroadcastsTo input.ty.shape ty.shape) (hkind : input.kind = .tensor)
    (hcount : elementCount input.ty ≠ 1) :
    ∃ squeezed, squeezeSingletonBroadcastDims input ty =
        .ok (squeezed, addedDimensions input.ty ty) ∧
      squeezed.kind = .tensor ∧
      squeezed.ty = ⟨input.ty.elem, (squeezedAxes input.ty ty).map input.ty.dim⟩ ∧
      ∀ i, InBounds i ty.shape → squeezed.cell ((squeezedAxes input.ty ty).map fun index =>
        i.getD (ty.rank - input.ty.rank + index) 0) =
          .written (x (broadcastIndex input.ty.shape i)) := by
  unfold squeezeSingletonBroadcastDims
  dsimp only
  by_cases hsingle : ((List.range input.ty.rank).filter fun index =>
      isSqueezed (input.ty.dim index) (ty.dim (ty.rank - input.ty.rank + index))) = []
  · have haxes : squeezedAxes input.ty ty = List.range input.ty.rank := by
      refine List.filter_eq_self.mpr fun index hindex => ?_
      have := List.filter_eq_nil_iff.mp hsingle index hindex
      simpa using this
    have hdims : (List.range input.ty.rank).map input.ty.dim = input.ty.shape := map_getD_range _
    rw [hsingle]
    refine ⟨input, ?_, hkind, ?_, fun i hi => ?_⟩
    · simp [addedDimensions, hsingle, pure, Except.pure]
    · rw [haxes, hdims]
    · have hravel := ravel_squeezedAxes hto hi
      have hcoords := inBounds_squeezedAxes hto hi
      have hbound := hto.inBounds hi
      rw [haxes, hdims] at hravel hcoords
      rw [haxes, ← unravel_ravel hcoords, hravel, unravel_ravel hbound]
      exact hx _ hbound
  · obtain ⟨index, hindex⟩ := @exists_mem_squeezedAxes input.ty ty hcount
    have hlen : input.ty.shape.length = (ty.shape.drop (ty.rank - input.ty.rank)).length := by
      have := hto.1
      rw [List.length_drop, TensorType.rank, TensorType.rank]
      omega
    have hsome : (squeezedAxes input.ty ty).map input.ty.dim ≠ [] := by
      intro hnil
      rw [List.map_eq_nil_iff.mp hnil] at hindex
      exact absurd hindex List.not_mem_nil
    have hdrop : ∀ axis, (ty.shape.drop (ty.rank - input.ty.rank)).getD axis 0 =
        ty.dim (ty.rank - input.ty.rank + axis) := fun axis => getD_drop _ _ _
    have hgroups : Reassociates (collapseReassociationForSqueezedBroadcast input.ty.shape
        (ty.shape.drop (ty.rank - input.ty.rank))) input.ty.shape
        ((squeezedAxes input.ty ty).map input.ty.dim) := by
      have := reassociates_squeezed hlen
        ⟨index, List.mem_range.mp (List.mem_filter.mp hindex).1, ?_⟩
      · simp only [hdrop] at this
        exact this
      · have hkeep := (List.mem_filter.mp hindex).2
        rw [hdrop]
        exact (Bool.not_eq_true' _).mp hkeep
    have hfit : DimsFit ((squeezedAxes input.ty ty).map input.ty.dim) :=
      input.dims_fit.map_getD _
    refine ⟨.tensor ⟨input.ty.elem, (squeezedAxes input.ty ty).map input.ty.dim⟩ (fun i =>
      input.cell (unravel input.ty.shape
        (ravel ((squeezedAxes input.ty ty).map input.ty.dim) i))) hfit, ?_, rfl, rfl,
      fun i hi => ?_⟩
    · rw [if_neg (by rwa [List.isEmpty_iff])]
      change (if ((squeezedAxes input.ty ty).map input.ty.dim).isEmpty then _ else do
        let squeezed ← appendCollapseShape input
          ⟨input.ty.elem, (squeezedAxes input.ty ty).map input.ty.dim⟩
          (collapseReassociationForSqueezedBroadcast input.ty.shape
            (ty.shape.drop (ty.rank - input.ty.rank)))
        return (squeezed, addedDimensions input.ty ty)) = _
      rw [if_neg (by rwa [List.isEmpty_iff]), appendCollapseShape_eq hkind hgroups hfit]
      rfl
    · rw [Value.tensor_cell, ravel_squeezedAxes hto hi, unravel_ravel (hto.inBounds hi)]
      exact hx _ (hto.inBounds hi)

/-- The path through `linalg.broadcast`. -/
theorem exists_broadcast_of_elementCount_ne_one (hx : input.Holds x)
    (helem : input.ty.elem = ty.elem) (hto : BroadcastsTo input.ty.shape ty.shape)
    (hkind : input.kind = .tensor) (hcount : elementCount input.ty ≠ 1)
    (hfit : DimsFit ty.shape) :
    ∃ value, broadcast input ty = .ok value ∧ value.ty = ty ∧
      value.Holds fun i => x (broadcastIndex input.ty.shape i) := by
  unfold broadcast
  by_cases hsame : input.ty = ty
  · rw [if_pos ⟨hsame, hkind⟩]
    refine ⟨input, rfl, hsame, fun i hi => ?_⟩
    dsimp only
    rw [broadcastIndex_self hi]
    exact hx i hi
  · have hrank : input.ty.rank ≠ 0 := by
      intro hzero
      rw [elementCount, List.eq_nil_of_length_eq_zero hzero] at hcount
      exact hcount rfl
    obtain ⟨squeezed, hsqueeze, hskind, hsty, hcell⟩ :=
      exists_squeezeSingletonBroadcastDims hx hto hkind hcount
    obtain ⟨-, hlt, hlen, hkept⟩ := addsDimensions hto
    have hemit := emitLinalgBroadcast_eq hskind (by rw [hsty]; exact helem)
      (by rw [hsty]; exact hlen) hlt (by rw [hsty]; exact hkept) hfit
    rw [if_neg fun h => hsame h.1, if_neg (by simp [hkind]), if_neg hrank,
      if_neg hcount, ensureBroadcastable_eq_ok_iff.mpr ⟨helem, hto⟩]
    simp only [bind, Except.bind, hsqueeze]
    rw [hemit]
    refine ⟨_, rfl, rfl, fun i hi => ?_⟩
    rw [Value.tensor_cell, keptAxes_addedDimensions hto.1, List.map_map]
    exact hcell i hi

/-- The path through `linalg.fill`. -/
theorem broadcast_eq_of_elementCount_eq_one (hx : input.Holds x)
    (helem : input.ty.elem = ty.elem) (hne : input.ty ≠ ty ∨ input.kind = .scalar)
    (hcount : elementCount input.ty = 1) (hfit : DimsFit ty.shape) :
    broadcast input ty =
      .ok (.tensor ty (fun _ => .written (x (firstPosition input.ty.shape))) hfit) := by
  have hnotsame : ¬ (input.ty = ty ∧ input.kind = .tensor) := by
    rintro ⟨hsame, hkind⟩
    rcases hne with hne | hscalar
    · exact hne hsame
    · rw [hkind] at hscalar
      cases hscalar
  unfold broadcast
  rw [if_neg hnotsame]
  split_ifs with hscalar hrank
  · exact splat_eq hx (.inr hcount) helem hfit
  · exact splat_eq hx (.inr hcount) helem hfit
  · have hkind : input.kind = .tensor := by
      cases hk : input.kind with
      | scalar => exact absurd hk hscalar
      | tensor => rfl
    rw [extractFirstScalar_eq hx hkind (prod_ne_zero_of_elementCount hcount)]
    exact splat_scalar (show IsScalar (.scalar input.ty.elem (.written _)) ty.elem _ from
      ⟨rfl, helem, rfl⟩) hfit

/-- The path through `linalg.broadcast` along one axis. -/
theorem exists_broadcastAlongAxis_of_elementCount_ne_one {axis : ℕ} (hx : input.Holds x)
    (helem : input.ty.elem = ty.elem) (haxis : axis < ty.rank)
    (hshape : input.ty.shape = ty.shape.eraseIdx axis)
    (hkind : input.kind = .tensor) (hcount : elementCount input.ty ≠ 1)
    (hfit : DimsFit ty.shape) :
    ∃ value, broadcastAlongAxis input ty axis = .ok value ∧ value.ty = ty ∧
      value.Holds fun i => x (i.eraseIdx axis) := by
  have hsame : input.ty ≠ ty := fun h => absurd (rank_add_one haxis hshape) (by rw [h]; omega)
  have hrank : ¬ (input.ty.rank = 0 ∨ elementCount input.ty = 1) := by
    rintro (hzero | hone)
    · rw [elementCount, List.eq_nil_of_length_eq_zero hzero] at hcount
      exact hcount rfl
    · exact hcount hone
  obtain ⟨-, hlt, hlen, hkept⟩ := addsDimensions_axis haxis hshape
  have hemit := emitLinalgBroadcast_eq hkind helem hlen hlt hkept hfit
  unfold broadcastAlongAxis
  rw [if_neg fun h => hsame h.1, if_neg (by simp [hkind]), if_neg hrank,
    ensureAxisBroadcastable_eraseIdx helem haxis hshape]
  simp only [bind, Except.bind, axisBroadcastDimensions_eq haxis hshape]
  rw [hemit]
  refine ⟨_, rfl, rfl, fun i hi => ?_⟩
  have hilen : i.length = ty.rank := hi.length_eq
  rw [Value.tensor_cell, ← hilen, map_keptAxes_singleton (hilen ▸ haxis)]
  exact hx _ (hshape ▸ hi.eraseIdx axis)

/-- The path through `linalg.fill`, along one axis. -/
theorem broadcastAlongAxis_eq_of_elementCount_eq_one {axis : ℕ} (hx : input.Holds x)
    (helem : input.ty.elem = ty.elem) (haxis : axis < ty.rank)
    (hshape : input.ty.shape = ty.shape.eraseIdx axis) (hcount : elementCount input.ty = 1)
    (hfit : DimsFit ty.shape) :
    broadcastAlongAxis input ty axis =
      .ok (.tensor ty (fun _ => .written (x (firstPosition input.ty.shape))) hfit) := by
  have hsame : input.ty ≠ ty := fun h => absurd (rank_add_one haxis hshape) (by rw [h]; omega)
  unfold broadcastAlongAxis
  rw [if_neg fun h => hsame h.1]
  split_ifs with hscalar hone
  · exact splat_eq hx (.inr hcount) helem hfit
  · obtain ⟨value, hvalue, hisScalar⟩ := exists_coerceToScalar hx (.inr hcount)
    simp only [hvalue, bind, Except.bind]
    exact splat_scalar (helem ▸ hisScalar) hfit
  · exact absurd (.inr hcount) hone

end Spec

/-! ## When the lowering is exact -/

/-- The lowering of a broadcast computes NumPy's broadcast, whatever the values;
the dimensions it adds are well formed. -/
def BroadcastLowersTo (inputTy ty : TensorType) : Prop :=
  ∀ (R : Type) (input : Value R) (x : List ℕ → R), input.ty = inputTy → input.Holds x →
    (∃ value, broadcast input ty = .ok value ∧ value.ty = ty ∧
      value.Holds fun i => x (broadcastIndex inputTy.shape i)) ∧
    (input.kind = .tensor → inputTy ≠ ty → elementCount inputTy ≠ 1 →
      ∃ squeezed dimensions,
        squeezeSingletonBroadcastDims input ty = .ok (squeezed, dimensions) ∧
          AddsDimensions squeezed.ty.shape ty dimensions)

/-- The lowering of a broadcast along an axis brings a reduced tensor back. -/
def AxisBroadcastLowersTo (inputTy ty : TensorType) (axis : ℕ) : Prop :=
  ∀ (R : Type) (input : Value R) (x : List ℕ → R), input.ty = inputTy → input.Holds x →
    (∃ value, broadcastAlongAxis input ty axis = .ok value ∧ value.ty = ty ∧
      value.Holds fun i => x (i.eraseIdx axis)) ∧
    ∃ dimensions, axisBroadcastDimensions inputTy.rank ty.rank axis = .ok dimensions ∧
      AddsDimensions inputTy.shape ty dimensions

/-- The wrapping element count does not take a larger tensor for a single
element (or it does not matter: the types are equal, or nothing is computed). -/
def CountsExactly (inputTy ty : TensorType) : Prop :=
  inputTy = ty ∨ ty.shape.prod = 0 ∨ (elementCount inputTy = 1 → inputTy.shape.prod = 1)

/-- The last position of an array. -/
def lastPosition (shape : List ℕ) : List ℕ := shape.map (· - 1)

theorem getD_lastPosition (shape : List ℕ) (axis : ℕ) :
    (lastPosition shape).getD axis 0 = shape.getD axis 0 - 1 := by
  rw [lastPosition, List.getD_eq_getElem?_getD, List.getD_eq_getElem?_getD, List.getElem?_map]
  cases shape[axis]? <;> rfl

theorem inBounds_lastPosition {shape : List ℕ} (h : shape.prod ≠ 0) :
    InBounds (lastPosition shape) shape := by
  refine inBounds_iff_getD.mpr ⟨List.length_map _, fun axis haxis => ?_⟩
  have hpos := (inBounds_firstPosition h).getD_lt haxis
  rw [getD_lastPosition]
  omega

theorem getD_firstPosition (shape : List ℕ) (axis : ℕ) :
    (firstPosition shape).getD axis 0 = 0 := by
  rw [firstPosition, List.getD_eq_getElem?_getD, List.getElem?_replicate]
  split <;> rfl

/-- An array of more than one element has a dimension above one. -/
theorem exists_two_le_dim {shape : List ℕ} (hzero : shape.prod ≠ 0) (hone : shape.prod ≠ 1) :
    ∃ axis < shape.length, 2 ≤ shape.getD axis 0 := by
  by_contra hnone
  push Not at hnone
  refine hone (List.prod_eq_one fun dim hdim => ?_)
  obtain ⟨axis, haxis, rfl⟩ := List.mem_iff_getElem.mp hdim
  have hlt := hnone axis haxis
  have hpos := (inBounds_firstPosition hzero).getD_lt haxis
  rw [List.getD_eq_getElem _ _ haxis] at hlt hpos
  omega

/-- An array of more than one element has a first and a last position. -/
theorem firstPosition_ne_lastPosition {shape : List ℕ} (hzero : shape.prod ≠ 0)
    (hone : shape.prod ≠ 1) : firstPosition shape ≠ lastPosition shape := by
  intro heq
  obtain ⟨axis, -, htwo⟩ := exists_two_le_dim hzero hone
  have hcoord := congrArg (fun i => i.getD axis 0) heq
  rw [getD_firstPosition, getD_lastPosition] at hcoord
  omega

/-- The only position of an array with one element. -/
theorem eq_firstPosition {shape i : List ℕ} (hprod : shape.prod = 1) (hi : InBounds i shape) :
    i = firstPosition shape := by
  have hlen := hi.length_eq
  refine ext_getD (by simp [firstPosition, hlen]) fun axis haxis => ?_
  have hlt := hi.getD_lt (hlen ▸ haxis)
  have hone : shape.getD axis 0 = 1 := by
    rw [List.getD_eq_getElem _ _ (hlen ▸ haxis)]
    exact Nat.dvd_one.mp (hprod ▸ List.dvd_prod (List.getElem_mem (hlen ▸ haxis)))
  rw [getD_firstPosition]
  omega

theorem kind_eq_tensor_of_elementCount_ne_one {input : Value R}
    (h : elementCount input.ty ≠ 1) : input.kind = .tensor :=
  Value.kind_eq_tensor fun hnil => h (by rw [elementCount, hnil]; rfl)

section Exact

variable {inputTy ty : TensorType}

/-- **Lowering a broadcast is exact unless the type of the result cannot be parsed
or a wrapped element count says one.** -/
theorem broadcastLowersTo_iff (hparsed : DimsFit inputTy.shape) (helem : inputTy.elem = ty.elem)
    (hto : BroadcastsTo inputTy.shape ty.shape) :
    BroadcastLowersTo inputTy ty ↔ DimsFit ty.shape ∧ CountsExactly inputTy ty := by
  constructor
  · intro h
    -- every position holds itself, so that the result tells what it has read
    let input : Value (List ℕ) := .tensor inputTy (fun i => .written i) hparsed
    obtain ⟨⟨value, hvalue, hty, hholds⟩, -⟩ := h (List ℕ) input id rfl fun _ _ => rfl
    have hfit : DimsFit ty.shape := hty ▸ value.dims_fit
    refine ⟨hfit, ?_⟩
    by_contra hwrong
    simp only [CountsExactly, not_or, Classical.not_imp] at hwrong
    obtain ⟨hne, hfull, hcount, hprod⟩ := hwrong
    have hsplat := broadcast_eq_of_elementCount_eq_one (show input.Holds id from fun _ _ => rfl)
      helem (.inl hne) hcount hfit
    rw [hsplat] at hvalue
    obtain rfl := Except.ok.inj hvalue
    have hlast := hholds (lastPosition ty.shape) (inBounds_lastPosition hfull)
    have heq : firstPosition inputTy.shape =
        broadcastIndex inputTy.shape (lastPosition ty.shape) := Cell.written.inj hlast
    obtain ⟨axis, haxis, htwo⟩ := exists_two_le_dim (prod_ne_zero_of_elementCount hcount) hprod
    have hlen : (lastPosition ty.shape).length = ty.shape.length := List.length_map _
    have hcoord := congrArg (fun i => i.getD axis 0) heq
    rw [getD_firstPosition, getD_broadcastIndex (hlen ▸ hto.1) haxis, getD_lastPosition, hlen,
      if_neg (by omega)] at hcoord
    have hdim := (broadcastsTo_iff_getD.mp hto).2 axis haxis
    omega
  · rintro ⟨hfit, hexact⟩ R input x hty hx
    subst hty
    refine ⟨?_, fun hkind hne hcount => ?_⟩
    · by_cases hcount : elementCount input.ty = 1
      · by_cases hsame : input.ty = ty ∧ input.kind = .tensor
        · refine ⟨input, if_pos hsame, hsame.1, fun i hi => ?_⟩
          dsimp only
          rw [broadcastIndex_self hi]
          exact hx i hi
        · have hne : input.ty ≠ ty ∨ input.kind = .scalar := by
            cases hkind : input.kind with
            | scalar => exact .inr rfl
            | tensor => exact .inl fun h => hsame ⟨h, hkind⟩
          refine ⟨_, broadcast_eq_of_elementCount_eq_one hx helem hne hcount hfit, rfl,
            fun i hi => ?_⟩
          have hread := hto.inBounds hi
          have hprod : input.ty.shape.prod = 1 := by
            rcases hexact with hty | hempty | hexact
            · rcases hne with hne | hscalar
              · exact absurd hty hne
              · rw [input.shape_of_scalar hscalar]
                rfl
            · have hlt := ravel_lt hi
              rw [Value.tensor_ty, hempty] at hlt
              exact absurd hlt (Nat.not_lt_zero _)
            · exact hexact hcount
          exact congrArg (fun j => Cell.written (x j)) (eq_firstPosition hprod hread).symm
      · exact exists_broadcast_of_elementCount_ne_one hx helem hto
          (kind_eq_tensor_of_elementCount_ne_one hcount) hcount hfit
    · obtain ⟨squeezed, hsqueeze, -, hsty, -⟩ :=
        exists_squeezeSingletonBroadcastDims hx hto hkind hcount
      exact ⟨squeezed, _, hsqueeze, by rw [hsty]; exact addsDimensions hto⟩

/-- **Lowering a broadcast along an axis is exact unless the type of the result
cannot be parsed or a wrapped element count says one.** -/
theorem axisBroadcastLowersTo_iff {axis : ℕ} (hparsed : DimsFit inputTy.shape)
    (helem : inputTy.elem = ty.elem) (haxis : axis < ty.rank)
    (hshape : inputTy.shape = ty.shape.eraseIdx axis) :
    AxisBroadcastLowersTo inputTy ty axis ↔ DimsFit ty.shape ∧ CountsExactly inputTy ty := by
  have hne : inputTy ≠ ty := fun h => absurd (rank_add_one haxis hshape) (by rw [h]; omega)
  constructor
  · intro h
    let input : Value (List ℕ) := .tensor inputTy (fun i => .written i) hparsed
    obtain ⟨⟨value, hvalue, hty, hholds⟩, -⟩ := h (List ℕ) input id rfl fun _ _ => rfl
    have hfit : DimsFit ty.shape := hty ▸ value.dims_fit
    refine ⟨hfit, ?_⟩
    by_contra hwrong
    simp only [CountsExactly, not_or, Classical.not_imp] at hwrong
    obtain ⟨-, hfull, hcount, hprod⟩ := hwrong
    have hsplat := broadcastAlongAxis_eq_of_elementCount_eq_one
      (show input.Holds id from fun _ _ => rfl) helem haxis hshape hcount hfit
    rw [hsplat] at hvalue
    obtain rfl := Except.ok.inj hvalue
    have hlast := hholds (lastPosition ty.shape) (inBounds_lastPosition hfull)
    have heq : firstPosition inputTy.shape = (lastPosition ty.shape).eraseIdx axis :=
      Cell.written.inj hlast
    rw [lastPosition, List.eraseIdx_map, ← hshape] at heq
    exact firstPosition_ne_lastPosition (prod_ne_zero_of_elementCount hcount) hprod heq
  · rintro ⟨hfit, hexact⟩ R input x hty hx
    subst hty
    refine ⟨?_, [axis], axisBroadcastDimensions_eq haxis hshape, addsDimensions_axis haxis hshape⟩
    by_cases hcount : elementCount input.ty = 1
    · refine ⟨_, broadcastAlongAxis_eq_of_elementCount_eq_one hx helem haxis hshape hcount hfit,
        rfl, fun i hi => ?_⟩
      have hread : InBounds (i.eraseIdx axis) input.ty.shape := hshape ▸ hi.eraseIdx axis
      have hprod : input.ty.shape.prod = 1 := by
        rcases hexact with hty | hempty | hexact
        · exact absurd hty hne
        · have hlt := ravel_lt hi
          rw [Value.tensor_ty, hempty] at hlt
          exact absurd hlt (Nat.not_lt_zero _)
        · exact hexact hcount
      exact congrArg (fun j => Cell.written (x j)) (eq_firstPosition hprod hread).symm
    · exact exists_broadcastAlongAxis_of_elementCount_ne_one hx helem haxis hshape
        (kind_eq_tensor_of_elementCount_ne_one hcount) hcount hfit

end Exact

/-- **Both lowerings of broadcasts compute NumPy's broadcast, with well-formed
dimensions, exactly when MLIR can parse the type of the result and the element
count is not mistaken.**  No value has an input type that MLIR cannot parse. -/
theorem broadcastLowering_iff (inputTy ty : TensorType) (helem : inputTy.elem = ty.elem) :
    (broadcastShape inputTy.shape ty.shape = .ok ty.shape →
      (BroadcastLowersTo inputTy ty ↔
        (DimsFit inputTy.shape → DimsFit ty.shape ∧ CountsExactly inputTy ty))) ∧
    ∀ axis < ty.rank, inputTy.shape = ty.shape.eraseIdx axis →
      (AxisBroadcastLowersTo inputTy ty axis ↔
        (DimsFit inputTy.shape → DimsFit ty.shape ∧ CountsExactly inputTy ty)) := by
  by_cases hparsed : DimsFit inputTy.shape
  · simp only [hparsed, true_imp_iff]
    refine ⟨fun hshape => ?_, fun axis haxis hshape => ?_⟩
    · rw [broadcastShape_eq_ok_iff, broadcastShapeSlices_eq_right_iff] at hshape
      exact broadcastLowersTo_iff hparsed helem hshape
    · exact axisBroadcastLowersTo_iff hparsed helem haxis hshape
  · have hnone : ∀ {R : Type} (input : Value R), input.ty ≠ inputTy :=
      fun input hty => hparsed (hty ▸ input.dims_fit)
    simp only [hparsed, false_imp_iff, iff_true]
    exact ⟨fun _ R input x hty => absurd hty (hnone input),
      fun axis _ _ R input x hty => absurd hty (hnone input)⟩

theorem broadcastLowering_rows :
    BroadcastLowersTo ⟨.f32, [1, 3]⟩ ⟨.f32, [2, 3]⟩ ∧
      AxisBroadcastLowersTo ⟨.f32, [3]⟩ ⟨.f32, [2, 3]⟩ 0 :=
  ⟨((broadcastLowering_iff ⟨.f32, [1, 3]⟩ ⟨.f32, [2, 3]⟩ rfl).1 rfl).mpr
      fun _ => ⟨by decide, .inr (.inr fun h => absurd h (by decide))⟩,
    ((broadcastLowering_iff ⟨.f32, [3]⟩ ⟨.f32, [2, 3]⟩ rfl).2 0 (by decide) rfl).mpr
      fun _ => ⟨by decide, .inr (.inr fun h => absurd h (by decide))⟩⟩

/-- `7 * 7905747460161236407` wraps to one: the matrix is taken for a single
element, and every row of the result is filled with it. -/
theorem not_broadcastLowersTo_wrapped :
    broadcastShape [7, 7905747460161236407] [2, 7, 7905747460161236407] =
        .ok [2, 7, 7905747460161236407] ∧
      ¬ BroadcastLowersTo ⟨.f32, [7, 7905747460161236407]⟩
        ⟨.f32, [2, 7, 7905747460161236407]⟩ ∧
      ¬ AxisBroadcastLowersTo ⟨.f32, [7, 7905747460161236407]⟩
        ⟨.f32, [2, 7, 7905747460161236407]⟩ 0 := by
  have hwrong : ¬ CountsExactly ⟨.f32, [7, 7905747460161236407]⟩
      ⟨.f32, [2, 7, 7905747460161236407]⟩ := by
    rintro (h | h | h)
    · exact absurd (congrArg (fun ty => ty.shape.length) h) (by decide)
    · exact absurd h (by decide)
    · exact absurd (h (by decide)) (by decide)
  have hto : BroadcastsTo [7, 7905747460161236407] [2, 7, 7905747460161236407] := by decide
  refine ⟨rfl, fun h => hwrong ?_, fun h => hwrong ?_⟩
  · exact ((broadcastLowersTo_iff (by decide) (by rfl) hto).mp h).2
  · exact ((axisBroadcastLowersTo_iff (by decide) (by rfl) (Nat.succ_pos 2) (by rfl)).mp h).2

end Knok.Lowering
