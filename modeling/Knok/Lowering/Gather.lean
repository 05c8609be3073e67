import Mathlib
import Knok.IndexRule
import Knok.NumberFormat
import Knok.Lowering.Elementwise
import Knok.Lowering.Generic
import Knok.Lowering.Pieces

/-!
# Lowering indexed reads

`gather` and `take_along_axis` are one `linalg.generic` over the result, whose body
takes an index from the index tensor, counts it from the end when it is negative,
asserts that it is within the axis and extracts one element of the operand.  A
result of rank zero is extracted outside of any loop.

### Design decisions

* **Run time.**  Which elements are read is known at run time only: an element of
  the lowered tensor is the outcome of its read (`ReadOutcome`).
* **Indices** are patterns of 32 or 64 bits, extended to 64; the arithmetic on them
  wraps, and coordinates are unsigned.
-/

namespace Knok.Lowering

open Arrays Control

/-! ## The code -/

/-- What a read ends with. -/
inductive ReadOutcome (R : Type) where
  | assertionFailed
  | outOfBounds
  | element (x : R)

/-- Where a coordinate of the operand comes from. -/
inductive GatherInputAxis where
  | output (axis : ℕ)
  | index

/-- The index operand for an axis of the operand. -/
def GatherInputAxis.operand {α : Type} (index : α) (outputIndex : ℕ → α) : GatherInputAxis → α
  | .index => index
  | .output axis => outputIndex axis

/-- `index_cast_in_block`. -/
def indexCast {w : ℕ} (value : BitVec w) : BitVec 64 := value.signExtend 64

/-- `normalize_index_in_block`: the index and what is asserted. -/
def normalizeIndexInBlock (indexValue : BitVec 64) (axisSize : ℕ) : BitVec 64 × Bool :=
  let zero := BitVec.ofNat 64 0
  let dim := BitVec.ofNat 64 axisSize
  let isNegative := indexValue.slt zero
  let wrapped := indexValue + dim
  let normalized := if isNegative then wrapped else indexValue
  let lowerOk := zero.sle normalized
  let upperOk := normalized.slt dim
  (normalized, lowerOk && upperOk)

section Code

variable {R : Type} {w : ℕ}

/-- `tensor.extract` at indices that are computed at run time. -/
def extractAt (input : Value R) (indices : List (BitVec 64)) : ReadOutcome R :=
  let position := indices.map BitVec.toNat
  if InBounds position input.ty.shape then
    (input.cell position).value?.elim .outOfBounds .element
  else .outOfBounds

/-- The read of one element, at an index and at the coordinates of the result. -/
def readElement (input : Value R) (inputAxes : List GatherInputAxis) (indexedAxisSize : ℕ)
    (outputIndex : ℕ → BitVec 64) (indexValue : BitVec w) : ReadOutcome R :=
  let (index, inBounds) := normalizeIndexInBlock (indexCast indexValue) indexedAxisSize
  if inBounds then
    extractAt input (inputAxes.map (GatherInputAxis.operand index outputIndex))
  else .assertionFailed

/-- `gather_with_maps`. -/
def gatherWithMaps (input : Value R) (indices : Value (BitVec w)) (ty : TensorType)
    (indexAxes : List ℕ) (inputAxes : List GatherInputAxis) (indexedAxisSize : ℕ) :
    Except Error (Value (ReadOutcome R)) := do
  let indices ← coerceToKind indices indices.ty .tensor
  if ty.rank = 0 then
    let indexValue ← appendTensorExtract indices []
    let value := (indexValue.cell []).value?.elim Cell.unwritten fun v =>
      .written (readElement input inputAxes indexedAxisSize (fun _ => BitVec.ofNat 64 0) v)
    splat (.scalar input.ty.elem value) ty
  else
    let empty ← appendTensorEmpty ty
    appendLinalgParallel [indices] empty ty [indexAxes.map some] fun p args =>
      match args with
      | [v] => some (readElement input inputAxes indexedAxisSize
          (fun axis => BitVec.ofNat 64 (p.getD axis 0)) v)
      | _ => none

/-- `gather`. -/
def gather (input : Value R) (indices : Value (BitVec w)) (axis : ℕ) (ty : TensorType) :
    Except Error (Value (ReadOutcome R)) :=
  let indexRank := indices.ty.rank
  let indexAxes := List.range' axis indexRank
  let inputAxes := (List.range input.ty.rank).map fun inputAxis =>
    if inputAxis < axis then .output inputAxis
    else if inputAxis = axis then .index
    else .output (inputAxis + indexRank - 1)
  gatherWithMaps input indices ty indexAxes inputAxes (input.ty.dim axis)

/-- `take_along_axis`. -/
def takeAlongAxis (input : Value R) (indices : Value (BitVec w)) (axis : ℕ) :
    Except Error (Value (ReadOutcome R)) :=
  let ty : TensorType := ⟨input.ty.elem, indices.ty.shape⟩
  let indexAxes := List.range indices.ty.rank
  let inputAxes := (List.range input.ty.rank).map fun inputAxis =>
    if inputAxis = axis then .index else .output inputAxis
  gatherWithMaps input indices ty indexAxes inputAxes (input.ty.dim axis)

/-- The lowering of indexed reads. -/
def lowerIndexedRead (op : CallOp) (input : Value R) (indices : Value (BitVec w)) :
    Except Error (Value (ReadOutcome R)) :=
  match op with
  | .gather target axis => gather input indices axis target
  | .takeAlongAxis axis => takeAlongAxis input indices axis
  | op => .error (.msg s!"`{op.name}` is not an indexed read")

end Code

/-! ## Indices -/

section Indices

variable {w dim : ℕ} {value : BitVec w}

theorem toInt_indexCast (hw : w ≤ 64) : (indexCast value).toInt = value.toInt :=
  BitVec.toInt_signExtend_of_le hw

/-- **The assertion holds exactly for indices within the axis**, from either end; the
index that passes it is the normalised one. -/
theorem normalizeIndexInBlock_spec {value : BitVec 64} (hdim : dim < 2 ^ 63) :
    (normalizeIndexInBlock value dim).2 = decide (InRange dim value.toInt) ∧
      (InRange dim value.toInt →
        (normalizeIndexInBlock value dim).1.toNat = (normalized dim value.toInt).toNat) := by
  have hlow : -2 ^ 63 ≤ value.toInt := BitVec.le_toInt value
  have hhigh : value.toInt < 2 ^ 63 := BitVec.toInt_lt
  have hdimInt : (BitVec.ofNat 64 dim).toInt = dim := by
    rw [BitVec.toInt_eq_toNat_cond, BitVec.toNat_ofNat]
    split_ifs <;> omega
  have hzero : (BitVec.ofNat 64 0).toInt = 0 := rfl
  have hchosen : (normalizeIndexInBlock value dim).1.toInt = normalized dim value.toInt := by
    unfold normalizeIndexInBlock normalized
    simp only [BitVec.slt_eq_decide, hzero, decide_eq_true_eq]
    split_ifs with hneg
    · rw [BitVec.toInt_add, hdimInt, Int.bmod_eq_of_le] <;> omega
    · rfl
  have hasserted : (normalizeIndexInBlock value dim).2 =
      (decide (0 ≤ (normalizeIndexInBlock value dim).1.toInt) &&
        decide ((normalizeIndexInBlock value dim).1.toInt < dim)) := by
    rw [← hdimInt]
    rfl
  constructor
  · rw [hasserted, hchosen, ← Bool.decide_and]
    exact decide_eq_decide.mpr inRange_iff.symm
  · intro hrange
    have hpos := (inRange_iff.mp hrange).1
    rw [← hchosen] at hpos ⊢
    rw [BitVec.toInt_eq_toNat_cond] at hpos ⊢
    split_ifs at hpos ⊢ <;> omega

end Indices

/-! ## Positions -/

section Positions

variable {pre mid suf p t s : List ℕ}

/-- The coordinates of the operand, in three runs. -/
theorem map_range_runs {α : Type} (f : ℕ → α) (a b : ℕ) :
    (List.range (a + (b + 1))).map f =
      (List.range a).map f ++ f a :: (List.range b).map fun k => f (a + (k + 1)) := by
  rw [List.range_add, List.map_append, List.map_map, List.range_succ_eq_map, List.map_cons,
    List.map_map]
  rfl

/-- The axes of the operand: the index replaces the indexed one, and the coordinates
of the result pass over `count` axes instead of it. -/
def gatherInputAxes (axis rank count : ℕ) : List GatherInputAxis :=
  (List.range rank).map fun inputAxis =>
    if inputAxis < axis then .output inputAxis
    else if inputAxis = axis then .index
    else .output (inputAxis + count - 1)

theorem gatherInputAxes_one (axis rank : ℕ) : gatherInputAxes axis rank 1 = (List.range rank).map fun inputAxis =>
    if inputAxis = axis then .index else .output inputAxis := by
  unfold gatherInputAxes
  apply List.map_congr_left
  intro inputAxis _
  rcases lt_trichotomy inputAxis axis with hlt | heq | hgt
  · rw [if_pos hlt, if_neg hlt.ne]
  · rw [if_neg (not_lt.mpr heq.ge), if_pos heq, if_pos heq]
  · rw [if_neg (not_lt.mpr hgt.le), if_neg hgt.ne', if_neg hgt.ne']
    rfl

/-- **The coordinates that are extracted**: those of the result around the index. -/
theorem map_gatherInputAxes {α : Type} (index : α) (f : ℕ → α) (hp : p.length = pre.length)
    (ht : t.length = mid.length) (hs : s.length = suf.length) :
    (gatherInputAxes pre.length (pre.length + (suf.length + 1)) mid.length).map
      (GatherInputAxis.operand index fun axis => f ((p ++ (t ++ s)).getD axis 0)) =
        p.map f ++ index :: s.map f := by
  have hread : ∀ q : List ℕ, q.map f = (List.range q.length).map fun k => f (q.getD k 0) := by
    intro q
    conv_lhs => rw [← map_getD_range q]
    rw [List.map_map]
    rfl
  unfold gatherInputAxes
  rw [List.map_map, map_range_runs, hread p, hread s, hp, hs]
  refine congrArg₂ (· ++ ·) ?_ (congrArg₂ List.cons ?_ ?_)
  · apply List.map_congr_left
    intro k hk
    have hk := List.mem_range.mp hk
    rw [Function.comp_apply, if_pos hk]
    exact congrArg f (List.getD_append _ _ _ _ (hp ▸ hk))
  · rw [Function.comp_apply, if_neg (lt_irrefl _), if_pos rfl]
    rfl
  · apply List.map_congr_left
    intro k _
    have hplace : pre.length + (k + 1) + mid.length - 1 = pre.length + (mid.length + k) := by omega
    rw [Function.comp_apply, if_neg (by omega), if_neg (by omega), hplace]
    apply congrArg f
    rw [List.getD_append_right _ _ _ _ (by omega), hp, Nat.add_sub_cancel_left,
      List.getD_append_right _ _ _ _ (by omega), ht, Nat.add_sub_cancel_left]

end Positions

/-! ## What the lowerings read -/

section Reads

variable {R : Type} {w : ℕ} {pre mid suf p t s : List ℕ} {dim : ℕ} {input : Value R}
  {x : List ℕ → R} {indices : Value (BitVec w)} {v : List ℕ → BitVec w}

/-- Coordinates below `2 ^ 64` are kept. -/
theorem map_toNat_ofNat {i shape : List ℕ} (hdims : DimsFit shape) (hi : InBounds i shape) :
    (i.map (BitVec.ofNat 64)).map BitVec.toNat = i := by
  rw [List.map_map]
  refine (List.map_congr_left fun k hk => ?_).trans (List.map_id i)
  obtain ⟨axis, haxis, hget⟩ := List.mem_iff_getElem.mp hk
  have hlt : i.getD axis 0 < shape.getD axis 0 := hi.getD_lt (hi.length_eq ▸ haxis)
  have hdim := hdims.getD_lt axis
  rw [List.getD_eq_getElem _ _ haxis, hget] at hlt
  rw [Function.comp_apply, BitVec.toNat_ofNat, Nat.mod_eq_of_lt (by omega)]
  rfl

/-- **The read of one element.** -/
theorem readElement_eq (hw : w ≤ 64) (hshape : input.ty.shape = pre ++ dim :: suf)
    (hdims : DimsFit input.ty.shape) (hx : input.Holds x) (hp : InBounds p pre)
    (ht : InBounds t mid) (hs : InBounds s suf) (value : BitVec w) :
    readElement input (gatherInputAxes pre.length input.ty.rank mid.length) dim
        (fun axis => BitVec.ofNat 64 ((p ++ (t ++ s)).getD axis 0)) value =
      if InRange dim value.toInt
      then .element (x (p ++ (normalized dim value.toInt).toNat :: s))
      else .assertionFailed := by
  have hdim : dim < 2 ^ 63 := hdims dim (by rw [hshape]; simp)
  have hpre : DimsFit pre := fun d hd => hdims d (by rw [hshape]; simp [hd])
  have hsuf : DimsFit suf := fun d hd => hdims d (by rw [hshape]; simp [hd])
  have hrank : input.ty.rank = pre.length + (suf.length + 1) := by
    rw [TensorType.rank, hshape, List.length_append, List.length_cons]
  obtain ⟨hasserted, hnormalized⟩ := @normalizeIndexInBlock_spec dim (indexCast value) hdim
  rw [toInt_indexCast hw] at hasserted hnormalized
  unfold readElement
  dsimp only
  rw [hasserted, hrank, map_gatherInputAxes _ _ hp.length_eq ht.length_eq hs.length_eq]
  by_cases hrange : InRange dim value.toInt
  · rw [if_pos (decide_eq_true hrange), if_pos hrange]
    have hposition : InBounds (p ++ (normalized dim value.toInt).toNat :: s) input.ty.shape := by
      rw [hshape]
      exact inBounds_append hp (.cons hrange.lt hs)
    unfold extractAt
    dsimp only
    rw [List.map_append, List.map_cons, map_toNat_ofNat hpre hp, map_toNat_ofNat hsuf hs,
      hnormalized hrange, if_pos hposition, hx _ hposition]
    rfl
  · rw [if_neg (by simpa using hrange), if_neg hrange]

/-- A value as a tensor of its own type. -/
theorem exists_coerceToTensor {S : Type} {value : Value S} {y : List ℕ → S} (hy : value.Holds y) :
    ∃ tensor, coerceToKind value value.ty .tensor = .ok tensor ∧ tensor.kind = .tensor ∧
      tensor.ty = value.ty ∧ tensor.Holds y := by
  show ∃ tensor, broadcast value value.ty = .ok tensor ∧ _
  unfold broadcast
  cases hkind : value.kind with
  | tensor => exact ⟨value, if_pos ⟨rfl, rfl⟩, hkind, rfl, hy⟩
  | scalar =>
      have hnil := value.shape_of_scalar hkind
      rw [if_neg nofun, if_pos rfl]
      refine ⟨_, splat_eq hy (.inl (congrArg List.length hnil)) rfl value.dims_fit, rfl, rfl,
        fun i hi => ?_⟩
      have hi : InBounds i value.ty.shape := hi
      rw [hnil] at hi ⊢
      obtain rfl : i = [] := List.length_eq_zero_iff.mp hi.length_eq
      rfl

/-- Both paths read the same: at rank zero there is one read, at coordinates that
are all zero. -/
theorem gatherWithMaps_lowers {ty : TensorType} {indexAxes : List ℕ}
    {inputAxes : List GatherInputAxis} {outcome : List ℕ → ReadOutcome R}
    (hdims : DimsFit ty.shape) (helem : input.ty.elem = ty.elem) (hv : indices.Holds v)
    (hfits : OperandFits ty.shape (indexAxes.map some, indices.ty.shape))
    (hread : ∀ i, InBounds i ty.shape →
      readElement input inputAxes dim (fun axis => BitVec.ofNat 64 (i.getD axis 0))
        (v (AffineMap.eval (indexAxes.map some) i)) = outcome i) :
    Lowers (gatherWithMaps input indices ty indexAxes inputAxes dim) ty outcome := by
  obtain ⟨tensor, htensor, hkind, htensorTy, hholds⟩ := exists_coerceToTensor hv
  unfold gatherWithMaps
  simp only [htensor, bind, Except.bind]
  have htensorFits : OperandFits ty.shape (indexAxes.map some, tensor.ty.shape) := by
    rwa [htensorTy]
  split_ifs with hrank
  · obtain ⟨elem, shape⟩ := ty
    obtain rfl : shape = [] := List.eq_nil_of_length_eq_zero hrank
    -- no loop, so that no axis of the index tensor can be read along one
    have hscalar : indexAxes = [] ∧ tensor.ty.shape = [] := by
      cases indexAxes with
      | nil => exact ⟨rfl, List.forall₂_nil_left_iff.mp htensorFits⟩
      | cons axis axes =>
          obtain ⟨_, _, hfit, -⟩ := List.forall₂_cons_left_iff.mp htensorFits
          exact absurd hfit.1 (Nat.not_lt_zero _)
    obtain ⟨rfl, hshape⟩ := hscalar
    have hcell : tensor.cell [] = .written (v []) := hholds [] (by rw [hshape]; exact .nil)
    have hextract : appendTensorExtract tensor [] =
        .ok (.scalar tensor.ty.elem (.written (v []))) := by
      unfold appendTensorExtract
      rw [verify_of hkind, verify_of (show InBounds [] tensor.ty.shape by rw [hshape]; exact .nil),
        hcell]
      rfl
    have houtcome : readElement input inputAxes dim (fun _ => BitVec.ofNat 64 0) (v []) =
        outcome [] := hread [] .nil
    simp only [hextract, Value.scalar_cell, Cell.value?, Option.elim_some, houtcome]
    have hscalar : IsScalar (.scalar input.ty.elem (.written (outcome []))) elem (outcome []) :=
      ⟨rfl, helem, rfl⟩
    refine ⟨_, splat_scalar hscalar hdims, rfl, fun i hi => ?_⟩
    obtain rfl : i = [] := List.length_eq_zero_iff.mp hi.length_eq
    rfl
  · have hloops : ∀ i, InBounds i ty.shape →
        (readOperands [tensor] [indexAxes.map some] i).bind (fun args => match args with
          | [v] => some (readElement input inputAxes dim
              (fun axis => BitVec.ofNat 64 (i.getD axis 0)) v)
          | _ => none) = some (outcome i) := by
      intro i hi
      have hcell := hholds _ (htensorFits.inBounds hi)
      dsimp only at hcell
      have hargs : readOperands [tensor] [indexAxes.map some] i =
          some [v (AffineMap.eval (indexAxes.map some) i)] := by
        simp [readOperands, hcell, Cell.value?]
      rw [hargs]
      exact congrArg some (hread i hi)
    obtain ⟨value, hvalue, hvalueTy, -, hvalueHolds⟩ := @exists_appendLinalgParallel
      (ReadOutcome R) (BitVec w) [tensor] (.tensor ty (fun _ => .unwritten) hdims) ty
      [indexAxes.map some]
      (fun p args => match args with
        | [v] => some (readElement input inputAxes dim
            (fun axis => BitVec.ofNat 64 (p.getD axis 0)) v)
        | _ => none) outcome rfl rfl rfl (List.forall_mem_singleton.mpr htensorFits) hloops
    rw [appendTensorEmpty_of hdims]
    exact ⟨value, hvalue, hvalueTy, hvalueHolds⟩

end Reads

/-! ### The two operations -/

section Operations

variable {R : Type} {op : CallOp} {inputTy indicesTy ty : TensorType} {pre mid suf : List ℕ}
  {dim axis : ℕ} {input : Value R} {x : List ℕ → R}
  {indices : Value (BitVec indicesTy.elem.width)} {v : List ℕ → BitVec indicesTy.elem.width}

/-- The outcome at a position of the result: the element at the normalised index, or
a failed assertion. -/
def readOutcome (op : CallOp) (inputTy indicesTy : TensorType) (axis : ℕ) (x : List ℕ → R)
    (v : List ℕ → BitVec indicesTy.elem.width) (i : List ℕ) : ReadOutcome R :=
  if InRange (inputTy.dim axis) (IndexTypes.indexAt op indicesTy.rank (fun t => (v t).toInt) i)
  then .element (x (op.readPosition inputTy indicesTy (fun t => (v t).toInt) i))
  else .assertionFailed

theorem readElement_readOutcome (h : IndexTypes op inputTy indicesTy ty pre mid suf dim)
    (hdims : DimsFit inputTy.shape) (hinput : input.ty = inputTy) (hx : input.Holds x) {i : List ℕ}
    (hi : InBounds i (pre ++ (mid ++ suf))) {t : List ℕ}
    (ht : IndexTypes.indexAt op indicesTy.rank (fun t => (v t).toInt) i = (v t).toInt) :
    readElement input (gatherInputAxes pre.length input.ty.rank mid.length) dim
        (fun axis => BitVec.ofNat 64 (i.getD axis 0)) (v t) =
      readOutcome op inputTy indicesTy pre.length x v i := by
  have hw : indicesTy.elem.width ≤ 64 := by
    rcases h.index_elem with helem | helem <;> rw [helem] <;> decide
  obtain ⟨p, q, s, rfl, hp, hq, hs⟩ := exists_runs hi
  rw [readElement_eq hw (by rw [hinput]; exact h.input_shape) (by rwa [hinput]) hx hp hq hs]
  unfold readOutcome
  rw [h.dim_eq, h.readPosition_eq, indexedPosition_runs hp hq, ht]

/-- **What indexed reads are lowered to**: the assertion passes exactly for indices
within the axis, and then the element at the normalised index is extracted from
within the operand.  The operand's type is one that MLIR parses, so that its
dimensions are below `2 ^ 63`. -/
theorem lowerIndexedRead_reads (haxis : op.indexAxis = some axis)
    (hok : inferCallResults op [inputTy, indicesTy] = .ok [ty]) (hparsed : DimsFit inputTy.shape)
    (hinput : input.ty = inputTy) (hindices : indices.ty = indicesTy) (hx : input.Holds x)
    (hv : indices.Holds v) :
    Lowers (lowerIndexedRead op input indices) ty (readOutcome op inputTy indicesTy axis x v) := by
  have hop : op.indexAxis.isSome = true := by rw [haxis]; rfl
  obtain ⟨pre, mid, suf, dim, h⟩ := exists_indexTypes hop hok
  obtain rfl : pre.length = axis := Option.some.inj (h.indexAxis_eq.symm.trans haxis)
  have hshape : ty.shape = pre ++ (mid ++ suf) := by rw [h.ty_eq]
  have helem : input.ty.elem = ty.elem := by rw [hinput, h.ty_eq]
  have hdim : input.ty.dim pre.length = dim := by rw [hinput]; exact h.dim_eq
  rcases h.layout with ⟨rfl, hmid⟩ | ⟨rfl, hlen, hall⟩
  · have hrank : indices.ty.rank = mid.length := by rw [hindices, TensorType.rank, hmid]
    show Lowers (gatherWithMaps input indices ty (List.range' pre.length indices.ty.rank)
      (gatherInputAxes pre.length input.ty.rank indices.ty.rank) (input.ty.dim pre.length)) ty _
    rw [hrank, hdim]
    have haxes : (List.range' pre.length mid.length).map some =
        (List.range mid.length).map fun axis => some (pre.length + axis) := by
      rw [List.range'_eq_map_range, List.map_map]
      rfl
    have hdims : DimsFit ty.shape := by
      have hinputDims : DimsFit (pre ++ dim :: suf) := by
        rw [← h.input_shape]
        exact hparsed
      have hmidDims : DimsFit mid := by
        rw [← hmid, ← hindices]
        exact indices.dims_fit
      rw [hshape]
      refine List.forall_mem_append.mpr ⟨hinputDims.subset (List.subset_append_left _ _),
        List.forall_mem_append.mpr ⟨hmidDims, hinputDims.subset fun d hd => ?_⟩⟩
      exact List.mem_append_right _ (List.mem_cons_of_mem _ hd)
    refine gatherWithMaps_lowers hdims helem hv ?_ fun i hi => ?_
    · rw [haxes, hindices, hmid, hshape]
      exact operandFits_run pre mid suf
    · have hi : InBounds i (pre ++ (mid ++ suf)) := hshape ▸ hi
      have hle : pre.length + mid.length ≤ i.length := by
        rw [hi.length_eq, List.length_append, List.length_append]
        omega
      refine readElement_readOutcome h hparsed hinput hx hi ?_
      rw [haxes, eval_run _ _ hle, ← hmid]
      rfl
  · have haxes : (List.range indices.ty.rank).map some = identityMap indices.ty.rank := rfl
    have hindexShape : indices.ty.shape = ty.shape := by rw [hindices, hall, hshape]
    have htyEq : ty = ⟨input.ty.elem, indices.ty.shape⟩ := by
      rw [hindexShape, helem]
    show Lowers (gatherWithMaps input indices ⟨input.ty.elem, indices.ty.shape⟩
      (List.range indices.ty.rank) ((List.range input.ty.rank).map fun inputAxis =>
        if inputAxis = pre.length then .index else .output inputAxis)
      (input.ty.dim pre.length)) ty _
    rw [← gatherInputAxes_one, ← hlen, ← htyEq, hdim]
    refine gatherWithMaps_lowers (hindexShape ▸ indices.dims_fit) helem hv ?_ fun i hi => ?_
    · rw [haxes, TensorType.rank, hindexShape]
      exact operandFits_identityMap_self ty.shape
    · have hread : AffineMap.eval ((List.range indices.ty.rank).map some) i = i :=
        eval_identityMap_self (hi.length_eq.trans (congrArg List.length hindexShape).symm)
      rw [hread]
      exact readElement_readOutcome h hparsed hinput hx (hshape ▸ hi) rfl

/-- The last of three elements, read to a scalar at the index `-1`. -/
theorem lowerIndexedRead_reads_scalar :
    Lowers (lowerIndexedRead (.gather ⟨.f32, []⟩ 0)
      (.tensor ⟨.f32, [3]⟩ fun i => .written (i.getD 0 0))
      (.scalar .i32 (.written (BitVec.ofInt 32 (-1))))) ⟨.f32, []⟩ fun _ => .element 2 := by
  have hreads := @lowerIndexedRead_reads ℕ (.gather ⟨.f32, []⟩ 0) ⟨.f32, [3]⟩ ⟨.i32, []⟩
    ⟨.f32, []⟩ 0 (.tensor ⟨.f32, [3]⟩ fun i => .written (i.getD 0 0)) (fun i => i.getD 0 0)
    (.scalar .i32 (.written (BitVec.ofInt 32 (-1)))) (fun _ => BitVec.ofInt 32 (-1)) rfl rfl
    (by decide) rfl rfl (fun _ _ => rfl) fun _ _ => rfl
  refine hreads.congr fun i hi => ?_
  obtain rfl : i = [] := List.length_eq_zero_iff.mp hi.length_eq
  rfl

end Operations

end Knok.Lowering
