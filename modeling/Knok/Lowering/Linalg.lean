import Mathlib
import Knok.ProductRule
import Knok.Lowering.Elementwise
import Knok.Lowering.Matmul
import Knok.Lowering.Movement
import Knok.Lowering.Reductions

/-!
# Lowering contractions

Dot products along an axis, inner products, traces and diagonals are one
`linalg.generic` each.  Their maps number the axes of an operand that survive and
send the contracted ones to the last loop.  An outer product reshapes its operands
to vectors and multiplies all pairs.

### Design decisions

* **Renumbering.**  Three of the functions run the same loop over the axes; it is
  one definition (`contractedIndices`) with the contracted axes as an argument.  A
  position is recovered from its surviving coordinates and the contracted ones.
* **Counts.**  The outer product computes the lengths of its vectors in 64 bits, and
  MLIR parses their types; this is the only place where a lowering can fail.
-/

namespace Knok.Lowering

open Arrays Control

/-! ## The code -/

/-- The loop that numbers the axes of an operand: contracted axes are the reduction
dimension, the others are counted. -/
def contractedIndices (rank : ℕ) (contracted : ℕ → Bool) (reductionDim : ℕ) : AffineMap :=
  ((List.range rank).foldl (fun (indices, outputAxis) inputAxis =>
    if contracted inputAxis then (indices ++ [some reductionDim], outputAxis)
    else (indices ++ [some outputAxis], outputAxis + 1)) (([], 0) : AffineMap × ℕ)).1

section Code

variable {R : Type} [CommSemiring R]

/-- A scalar as a tensor. -/
def ensureTensorValue (value : Value R) : Except Error (Value R) :=
  match value.kind with
  | .tensor => .ok value
  | .scalar => splat value value.ty

/-- `emit_two_input_reduction`. -/
def emitTwoInputReduction (lhs rhs : Value R) (ty : TensorType) (lhsIndices rhsIndices : AffineMap)
    (loopRank : ℕ) : Except Error (Value R) := do
  let lhs ← ensureTensorValue lhs
  let rhs ← ensureTensorValue rhs
  let init ← zeroInitializedTensor ty
  appendLinalgGeneric [lhs, rhs] init ty loopRank [lhsIndices, rhsIndices] (identityMap ty.rank)
    (List.replicate ty.rank .parallel ++ [.reduction]) genericMatmulBody

/-- `emit_one_input_reduction`. -/
def emitOneInputReduction (input : Value R) (ty : TensorType) (inputIndices : AffineMap)
    (loopRank : ℕ) : Except Error (Value R) := do
  let input ← ensureTensorValue input
  let init ← zeroInitializedTensor ty
  appendLinalgGeneric [input] init ty loopRank [inputIndices] (identityMap ty.rank)
    (List.replicate ty.rank .parallel ++ [.reduction]) fun
      | [x], acc => acc + x
      | _, acc => acc

/-- `vecdot`. -/
def vecdot (lhs rhs : Value R) (axis : Option ℕ) : Except Error (Value R) :=
  let axis := axis.getD (lhs.ty.rank - 1)
  let ty : TensorType := ⟨lhs.ty.elem, lhs.ty.shape.eraseIdx axis⟩
  let indices := contractedIndices lhs.ty.rank (· == axis) ty.rank
  emitTwoInputReduction lhs rhs ty indices indices (ty.rank + 1)

/-- `inner`. -/
def inner (lhs rhs : Value R) : Except Error (Value R) :=
  if lhs.ty.rank = 0 ∨ rhs.ty.rank = 0 then emitBinary (· * ·) lhs rhs
  else
    let lhsPrefixRank := lhs.ty.rank - 1
    let rhsPrefixRank := rhs.ty.rank - 1
    let ty : TensorType :=
      ⟨lhs.ty.elem, lhs.ty.shape.take lhsPrefixRank ++ rhs.ty.shape.take rhsPrefixRank⟩
    let lhsIndices := (List.range lhsPrefixRank).map some ++ [some ty.rank]
    let rhsIndices :=
      (List.range rhsPrefixRank).map (fun axis => some (lhsPrefixRank + axis)) ++ [some ty.rank]
    emitTwoInputReduction lhs rhs ty lhsIndices rhsIndices (ty.rank + 1)

/-- `dot`. -/
def dot (lhs rhs : Value R) : Except Error (Value R) := inner lhs rhs

/-- `outer`. -/
def outer (lhs rhs : Value R) : Except Error (Value R) := do
  let lhsFlatTy : TensorType := ⟨lhs.ty.elem, [elementCount lhs.ty]⟩
  let rhsFlatTy : TensorType := ⟨rhs.ty.elem, [elementCount rhs.ty]⟩
  let ty : TensorType := ⟨lhs.ty.elem, [lhsFlatTy.dim 0, rhsFlatTy.dim 0]⟩
  let lhs ← reshape lhs lhsFlatTy
  let rhs ← reshape rhs rhsFlatTy
  let empty ← appendTensorEmpty ty
  appendLinalgParallel [lhs, rhs] empty ty [[some 0], [some 1]] fun _ args =>
    match args with
    | [u, v] => some (u * v)
    | _ => none

/-- `trace`. -/
def trace (input : Value R) (axes : Option (ℕ × ℕ)) : Except Error (Value R) :=
  let (axis0, axis1) := axes.getD (input.ty.rank - 2, input.ty.rank - 1)
  let ty : TensorType := ⟨input.ty.elem, removeAxesShape input.ty axis0 axis1⟩
  let indices :=
    contractedIndices input.ty.rank (fun axis => axis == axis0 || axis == axis1) ty.rank
  emitOneInputReduction input ty indices (ty.rank + 1)

/-- `diagonal`. -/
def diagonal (input : Value R) (axes : Option (ℕ × ℕ)) : Except Error (Value R) := do
  let (axis0, axis1) := axes.getD (input.ty.rank - 2, input.ty.rank - 1)
  let ty : TensorType :=
    ⟨input.ty.elem, removeAxesShape input.ty axis0 axis1 ++ [input.ty.dim axis0]⟩
  let input ← ensureTensorValue input
  let indices :=
    contractedIndices input.ty.rank (fun axis => axis == axis0 || axis == axis1) (ty.rank - 1)
  let empty ← appendTensorEmpty ty
  appendLinalgParallel [input] empty ty [indices] fun _ args => args.head?

/-- The contractions beside the matrix product. -/
def lowerContraction : CallOp → List (Value R) → Except Error (Value R)
  | .dot, [lhs, rhs] => dot lhs rhs
  | .vecdot axis, [lhs, rhs] => vecdot lhs rhs axis
  | .inner, [lhs, rhs] => inner lhs rhs
  | .outer, [lhs, rhs] => outer lhs rhs
  | .trace axes, [input] => trace input axes
  | .diagonal axes, [input] => diagonal input axes
  | op, _ => .error (.msg s!"`{op.name}` is not a contraction")

end Code

/-! ## Renumbered axes -/

section Renumbering

variable {rank : ℕ} {contracted : ℕ → Bool}

/-- How many axes below one survive. -/
def survivorsBelow (contracted : ℕ → Bool) (axis : ℕ) : ℕ :=
  (List.range axis).countP (!contracted ·)

/-- The axes that survive. -/
def survivors (rank : ℕ) (contracted : ℕ → Bool) : List ℕ :=
  (List.range rank).filter (!contracted ·)

/-- The loop computes every axis apart. -/
theorem contractedIndices_eq (rank : ℕ) (contracted : ℕ → Bool) (reductionDim : ℕ) :
    contractedIndices rank contracted reductionDim = (List.range rank).map fun axis =>
      if contracted axis then some reductionDim else some (survivorsBelow contracted axis) := by
  -- the counter is the number of survivors so far
  have hloop : (List.range rank).foldl (fun (indices, outputAxis) inputAxis =>
      if contracted inputAxis then (indices ++ [some reductionDim], outputAxis)
      else (indices ++ [some outputAxis], outputAxis + 1)) (([], 0) : AffineMap × ℕ) =
        ((List.range rank).map fun axis =>
          if contracted axis then some reductionDim
          else some (survivorsBelow contracted axis), survivorsBelow contracted rank) := by
    induction rank with
    | zero => rfl
    | succ rank ih =>
        rw [List.range_succ, List.foldl_append, ih, List.map_append]
        cases hcontracted : contracted rank <;>
          simp [hcontracted, survivorsBelow, List.range_succ]
  rw [contractedIndices, hloop]

/-- A survivor is found where it is counted. -/
theorem getElem?_survivors {axis : ℕ} (haxis : axis < rank) (hkept : contracted axis = false) :
    (survivors rank contracted)[survivorsBelow contracted axis]? = some axis := by
  have hsplit : survivors rank contracted =
      survivors axis contracted ++ axis :: (List.range' (axis + 1) (rank - axis - 1)).filter
        (!contracted ·) := by
    have hrange : List.range rank =
        List.range axis ++ axis :: List.range' (axis + 1) (rank - axis - 1) := by
      have hjoin := @List.range'_append_1 0 axis (rank - axis - 1 + 1)
      rw [Nat.zero_add, List.range'_succ] at hjoin
      rw [List.range_eq_range', List.range_eq_range', hjoin]
      congr 1
      omega
    rw [survivors, hrange, List.filter_append, List.filter_cons_of_pos (by simp [hkept])]
    rfl
  have hlen : (survivors axis contracted).length = survivorsBelow contracted axis :=
    List.countP_eq_length_filter.symm
  rw [hsplit, ← hlen, List.getElem?_append_right le_rfl, Nat.sub_self, List.getElem?_cons_zero]

variable {shape d i : List ℕ} {k dim : ℕ}

/-- The shape of the survivors, and the last loop for the contracted axes, fit the
operand. -/
theorem operandFits_contractedIndices
    (hdim : ∀ axis < shape.length, contracted axis = true → shape.getD axis 0 = dim) :
    OperandFits (((survivors shape.length contracted).map fun axis => shape.getD axis 0) ++ [dim])
      (contractedIndices shape.length contracted (survivors shape.length contracted).length,
        shape) := by
  unfold OperandFits
  rw [contractedIndices_eq]
  conv => rhs; rw [← map_getD_range shape]
  rw [List.forall₂_map_left_iff, List.forall₂_map_right_iff, List.forall₂_same]
  intro axis haxis
  have haxis := List.mem_range.mp haxis
  cases hcontracted : contracted axis with
  | true =>
      rw [if_pos rfl]
      constructor
      · simp
      · rw [hdim axis haxis hcontracted, List.getD_append_right _ _ _ _ (by simp)]
        simp
  | false =>
      rw [if_neg Bool.false_ne_true]
      have hget := getElem?_survivors haxis hcontracted
      have hlt := (List.getElem?_eq_some_iff.mp hget).1
      constructor
      · simp only [List.length_append, List.length_map]
        exact Nat.lt_add_right _ hlt
      · rw [List.getD_append _ _ _ _ (by rwa [List.length_map]), List.getD_eq_getElem?_getD,
          List.getElem?_map, hget]
        rfl

/-- A contracted axis is read at the last loop. -/
theorem getD_eval_contracted {axis : ℕ} (haxis : axis < rank) (hcontracted : contracted axis = true)
    (hi : i.length = (survivors rank contracted).length) :
    ((contractedIndices rank contracted (survivors rank contracted).length).eval
      (i ++ [k])).getD axis 0 = k := by
  unfold AffineMap.eval
  rw [contractedIndices_eq, List.map_map, List.getD_eq_getElem?_getD, List.getElem?_map,
    List.getElem?_range haxis]
  simp [hcontracted, ← hi]

/-- The survivors are counted up. -/
theorem map_survivorsBelow (rank : ℕ) (contracted : ℕ → Bool) :
    (survivors rank contracted).map (survivorsBelow contracted) =
      List.range (survivors rank contracted).length := by
  induction rank with
  | zero => rfl
  | succ rank ih =>
      have hcount : survivorsBelow contracted rank = (survivors rank contracted).length :=
        List.countP_eq_length_filter
      unfold survivors at ih hcount ⊢
      rw [List.range_succ, List.filter_append, List.map_append, ih]
      cases hcontracted : contracted rank <;> simp [hcontracted, hcount, List.range_succ]

/-- The survivors are read in order. -/
theorem map_survivors_eval (hi : i.length = (survivors rank contracted).length) :
    (survivors rank contracted).map (fun axis =>
      ((contractedIndices rank contracted (survivors rank contracted).length).eval
        (i ++ [k])).getD axis 0) = i := by
  have hread : ∀ axis ∈ survivors rank contracted,
      ((contractedIndices rank contracted (survivors rank contracted).length).eval
        (i ++ [k])).getD axis 0 = i.getD (survivorsBelow contracted axis) 0 := by
    intro axis hmem
    obtain ⟨hrange, hkept⟩ := List.mem_filter.mp hmem
    have haxis := List.mem_range.mp hrange
    have hkept : contracted axis = false := (Bool.not_eq_true' _).mp hkept
    have hlt := (List.getElem?_eq_some_iff.mp (getElem?_survivors haxis hkept)).1
    unfold AffineMap.eval
    rw [contractedIndices_eq, List.map_map, List.getD_eq_getElem?_getD, List.getElem?_map,
      List.getElem?_range haxis]
    simp only [Function.comp_apply, hkept, Bool.false_eq_true, if_false, Option.map_some,
      Option.elim_some, Option.getD_some]
    rw [List.getD_append _ _ _ _ (hi ▸ hlt)]
  rw [List.map_congr_left hread]
  calc (survivors rank contracted).map (fun axis => i.getD (survivorsBelow contracted axis) 0)
      = ((survivors rank contracted).map (survivorsBelow contracted)).map
          (fun place => i.getD place 0) := by
        rw [List.map_map]
        rfl
    _ = i := by rw [map_survivorsBelow, ← hi, map_getD_range]

end Renumbering

/-! ### One axis and two -/

section Axes

variable {rank k : ℕ} {i : List ℕ}

/-- The position that a dot product reads. -/
theorem eval_contractedIndices_axis {axis : ℕ} (haxis : axis < rank) (hi : i.length = rank - 1) :
    (contractedIndices rank (· == axis) i.length).eval (i ++ [k]) = i.insertIdx axis k := by
  let j := (contractedIndices rank (· == axis) i.length).eval (i ++ [k])
  have hj : j.length = rank := by
    show (AffineMap.eval _ _).length = rank
    rw [AffineMap.eval, List.length_map, contractedIndices_eq, List.length_map, List.length_range]
  have hkept : survivors rank (· == axis) = keptAxes rank [axis] :=
    (keptAxes_singleton rank axis).symm
  have hlen : i.length = (survivors rank (· == axis)).length := by
    have herase := congrArg List.length (map_keptAxes_singleton (hj.symm ▸ haxis))
    rw [hj, List.length_map, List.length_eraseIdx, hj, if_pos haxis] at herase
    rw [hkept, herase, hi]
  have hrest : j.eraseIdx axis = i := by
    rw [← map_keptAxes_singleton (hj.symm ▸ haxis), hj, ← hkept]
    show (survivors rank (· == axis)).map (fun axis' => ((contractedIndices rank (· == axis)
      i.length).eval (i ++ [k])).getD axis' 0) = i
    rw [hlen]
    exact map_survivors_eval hlen
  have hcoord : j.getD axis 0 = k := by
    show ((contractedIndices rank (· == axis) i.length).eval (i ++ [k])).getD axis 0 = k
    rw [hlen]
    exact getD_eval_contracted haxis (beq_self_eq_true axis) hlen
  have hback := insertIdx_eraseIdx_of_getD (hj.symm ▸ haxis)
  rw [hrest, hcoord] at hback
  exact hback.symm

/-- The position that a trace or a diagonal reads. -/
theorem eval_contractedIndices_pair {a b : ℕ} (h : PairFits a b rank) (hi : i.length = rank - 2) :
    (contractedIndices rank (fun axis => axis == a || axis == b) i.length).eval (i ++ [k]) =
      insertPair a b i k k := by
  let contracted : ℕ → Bool := fun axis => axis == a || axis == b
  let j := (contractedIndices rank contracted i.length).eval (i ++ [k])
  have hj : j.length = rank := by
    show (AffineMap.eval _ _).length = rank
    rw [AffineMap.eval, List.length_map, contractedIndices_eq, List.length_map, List.length_range]
  have hkept : survivors rank contracted =
      (List.range rank).filter fun axis => axis != a && axis != b :=
    List.filter_congr fun axis _ => Bool.not_or _ _
  have hfits : PairFits a b j.length := by rwa [hj]
  have hlen : i.length = (survivors rank contracted).length := by
    have herase := congrArg List.length (map_filter_range_pair hfits)
    rw [List.length_map, length_erasePair hfits, hj] at herase
    rw [hkept, herase, hi]
  have hrest : erasePair a b j = i := by
    rw [← map_filter_range_pair hfits, hj, ← hkept]
    show (survivors rank contracted).map (fun axis' => ((contractedIndices rank contracted
      i.length).eval (i ++ [k])).getD axis' 0) = i
    rw [hlen]
    exact map_survivors_eval hlen
  have hcoord : ∀ axis < rank, contracted axis = true → j.getD axis 0 = k := by
    intro axis haxis hcontracted
    show ((contractedIndices rank contracted i.length).eval (i ++ [k])).getD axis 0 = k
    rw [hlen]
    exact getD_eval_contracted haxis hcontracted hlen
  have hback := insertPair_erasePair hfits
  rw [hrest, hcoord a h.1 (by simp [contracted]), hcoord b h.2.1 (by simp [contracted])] at hback
  exact hback.symm

end Axes

/-! ## What the lowerings compute -/

section Lowerings

variable {R : Type} [CommSemiring R] {lhs rhs input : Value R} {x y : List ℕ → R}
  {elem : ElementType} {shape : List ℕ}

omit [CommSemiring R] in
theorem ensureTensorValue_eq {value : Value R} (h : value.ty.shape ≠ []) :
    ensureTensorValue value = .ok value := by
  rw [ensureTensorValue, Value.kind_eq_tensor h]

theorem emitTwoInputReduction_lowers {ty : TensorType} {lhsIndices rhsIndices : AffineMap}
    {dim : ℕ} (hdims : DimsFit ty.shape) (hlhs : lhs.ty.shape ≠ []) (hrhs : rhs.ty.shape ≠ [])
    (hx : lhs.Holds x) (hy : rhs.Holds y)
    (hlfits : OperandFits (ty.shape ++ [dim]) (lhsIndices, lhs.ty.shape))
    (hrfits : OperandFits (ty.shape ++ [dim]) (rhsIndices, rhs.ty.shape))
    (hdim : some ty.rank ∈ lhsIndices) :
    Lowers (emitTwoInputReduction lhs rhs ty lhsIndices rhsIndices (ty.rank + 1)) ty fun i =>
      ∑ k ∈ Finset.range dim,
        x (lhsIndices.eval (i ++ [k])) * y (rhsIndices.eval (i ++ [k])) := by
  obtain ⟨init, hinit, hkind, hinitTy, hzero⟩ := exists_zeroInitializedTensor (R := R) hdims
  have hbody : ∀ u v acc : R, genericMatmulBody [u, v] acc = acc + u * v := fun _ _ _ => rfl
  obtain ⟨value, hvalue, hty, hholds⟩ := appendLinalgGeneric_contraction hx hy hzero hkind hinitTy
    hlfits hrfits hdim hbody
  refine ⟨value, ?_, hty, hholds⟩
  unfold emitTwoInputReduction
  simp only [ensureTensorValue_eq hlhs, ensureTensorValue_eq hrhs, hinit, bind, Except.bind]
  exact hvalue

theorem emitOneInputReduction_lowers {ty : TensorType} {indices : AffineMap} {dim : ℕ}
    (hdims : DimsFit ty.shape) (hinput : input.ty.shape ≠ []) (hx : input.Holds x)
    (hfits : OperandFits (ty.shape ++ [dim]) (indices, input.ty.shape))
    (hdim : some ty.rank ∈ indices) :
    Lowers (emitOneInputReduction input ty indices (ty.rank + 1)) ty fun i =>
      ∑ k ∈ Finset.range dim, x (indices.eval (i ++ [k])) := by
  obtain ⟨init, hinit, hkind, hinitTy, hzero⟩ := exists_zeroInitializedTensor (R := R) hdims
  have hinputs : ∀ operand ∈ [(indices, input.ty.shape)],
      OperandFits (ty.shape ++ [dim]) operand := List.forall_mem_singleton.mpr hfits
  have hread : ∀ d, InBounds d (ty.shape ++ [dim]) →
      readOperands [input] [indices] d = some [x (indices.eval d)] := by
    intro d hd
    have hcell := hx _ (hfits.inBounds hd)
    dsimp only at hcell
    simp [readOperands, hcell, Cell.value?]
  obtain ⟨value, hvalue, hty, hholds⟩ := @appendLinalgGeneric_sum R init ty dim (fun
      | [x], acc => acc + x
      | _, acc => acc) _ [input] [indices] (fun d => x (indices.eval d)) rfl hzero hkind hinitTy
    hinputs ⟨_, List.mem_cons_self, hdim⟩ fun d hd => ⟨_, hread d hd, fun _ => rfl⟩
  refine ⟨value, ?_, hty, hholds⟩
  unfold emitOneInputReduction
  simp only [ensureTensorValue_eq hinput, hinit, bind, Except.bind]
  exact hvalue

/-- The contracted axis is read by some loop. -/
theorem mem_contractedIndices {rank axis : ℕ} {contracted : ℕ → Bool} (reductionDim : ℕ)
    (haxis : axis < rank) (hcontracted : contracted axis = true) :
    some reductionDim ∈ contractedIndices rank contracted reductionDim := by
  rw [contractedIndices_eq]
  exact List.mem_map.mpr ⟨axis, List.mem_range.mpr haxis, if_pos hcontracted⟩

theorem vecdot_lowers {axis : Option ℕ} (haxis : axis.getD (shape.length - 1) < shape.length)
    (hlty : lhs.ty = ⟨elem, shape⟩) (hrty : rhs.ty = ⟨elem, shape⟩) (hx : lhs.Holds x)
    (hy : rhs.Holds y) :
    Lowers (vecdot lhs rhs axis) ⟨elem, shape.eraseIdx (axis.getD (shape.length - 1))⟩
      (Arrays.vecdot (axis.getD (shape.length - 1)) shape x y) := by
  let place := axis.getD (shape.length - 1)
  have hne : shape ≠ [] := fun hnil => by
    rw [hnil] at haxis
    exact absurd haxis (Nat.not_lt_zero _)
  have herase : (shape.eraseIdx place).length = shape.length - 1 := by
    rw [List.length_eraseIdx, if_pos haxis]
  have hkept : survivors shape.length (· == place) = keptAxes shape.length [place] :=
    (keptAxes_singleton shape.length place).symm
  have hshape : (survivors shape.length (· == place)).map (fun axis => shape.getD axis 0) =
      shape.eraseIdx place := by
    rw [hkept]
    exact map_keptAxes_singleton haxis
  have hlen : (survivors shape.length (· == place)).length = (shape.eraseIdx place).length := by
    rw [← hshape, List.length_map]
  have hfits := @operandFits_contractedIndices (· == place) shape (shape.getD place 0)
    fun other _ hother => by rw [beq_iff_eq.mp hother]
  rw [hshape, hlen] at hfits
  have hlshape : lhs.ty.shape = shape := by rw [hlty]
  have hrshape : rhs.ty.shape = shape := by rw [hrty]
  let indices := contractedIndices shape.length (· == place) (shape.eraseIdx place).length
  have hlfits : OperandFits (shape.eraseIdx place ++ [shape.getD place 0])
      (indices, lhs.ty.shape) := by rwa [hlshape]
  have hrfits : OperandFits (shape.eraseIdx place ++ [shape.getD place 0])
      (indices, rhs.ty.shape) := by rwa [hrshape]
  have hlowers := @emitTwoInputReduction_lowers R _ lhs rhs x y
    ⟨elem, shape.eraseIdx place⟩ indices indices _ ((hlshape ▸ lhs.dims_fit).eraseIdx place)
    (by rwa [hlshape]) (by rwa [hrshape]) hx hy hlfits hrfits (mem_contractedIndices _ haxis (beq_self_eq_true place))
  unfold vecdot
  rw [hlty]
  refine hlowers.congr fun i hi => ?_
  have hi : i.length = (shape.eraseIdx place).length := hi.length_eq
  unfold Arrays.vecdot
  apply Finset.sum_congr rfl
  intro k _
  have hread : indices.eval (i ++ [k]) = i.insertIdx place k := by
    show (contractedIndices _ _ (shape.eraseIdx place).length).eval _ = _
    rw [← hi]
    exact eval_contractedIndices_axis haxis (hi.trans herase)
  rw [hread]

/-- The map of an operand of an inner product: a run of loops, then the last loop. -/
theorem eval_run_last (start count : ℕ) {i : List ℕ} {k : ℕ} (hle : start + count ≤ i.length) :
    AffineMap.eval ((List.range count).map (fun axis => some (start + axis)) ++ [some i.length])
      (i ++ [k]) = (i.drop start).take count ++ [k] := by
  have hrun : AffineMap.eval ((List.range count).map fun axis => some (start + axis)) (i ++ [k]) =
      (i.drop start).take count := by
    rw [eval_run start count (by rw [List.length_append]; omega),
      List.drop_append_of_le_length (by omega),
      List.take_append_of_le_length (by rw [List.length_drop]; omega)]
  unfold AffineMap.eval at hrun ⊢
  rw [List.map_append, hrun]
  simp

theorem operandFits_run_last (p q r : List ℕ) (n : ℕ) :
    OperandFits (p ++ q ++ r ++ [n])
      ((List.range q.length).map (fun axis => some (p.length + axis)) ++
        [some (p ++ q ++ r).length], q ++ [n]) := by
  have hrun := operandFits_run p q (r ++ [n])
  rw [← List.append_assoc q, ← List.append_assoc p, ← List.append_assoc p] at hrun
  unfold OperandFits at hrun ⊢
  refine List.rel_append hrun (.cons ⟨by simp, ?_⟩ .nil)
  rw [List.getD_append_right _ _ _ _ le_rfl, Nat.sub_self]
  rfl

theorem inner_lowers {p q : List ℕ} {n : ℕ} (hlty : lhs.ty = ⟨elem, p ++ [n]⟩)
    (hrty : rhs.ty = ⟨elem, q ++ [n]⟩) (hx : lhs.Holds x) (hy : rhs.Holds y) :
    Lowers (inner lhs rhs) ⟨elem, p ++ q⟩ (innerProduct (p ++ [n]) (q ++ [n]) x y) := by
  have hlshape : lhs.ty.shape = p ++ [n] := by rw [hlty]
  have hrshape : rhs.ty.shape = q ++ [n] := by rw [hrty]
  have hlfits := operandFits_run_last [] p q n
  have hrfits := operandFits_run_last p q [] n
  rw [List.append_nil] at hrfits
  simp only [List.nil_append, List.length_nil, Nat.zero_add] at hlfits
  have hdims : DimsFit (p ++ q) := by
    have hl := hlshape ▸ lhs.dims_fit
    have hr := hrshape ▸ rhs.dims_fit
    exact List.forall_mem_append.mpr
      ⟨hl.subset (List.subset_append_left _ _), hr.subset (List.subset_append_left _ _)⟩
  have hlowers := @emitTwoInputReduction_lowers R _ lhs rhs x y ⟨elem, p ++ q⟩
    ((List.range p.length).map some ++ [some (p ++ q).length])
    ((List.range q.length).map (fun axis => some (p.length + axis)) ++ [some (p ++ q).length]) n
    hdims (by simp [hlshape]) (by simp [hrshape]) hx hy (by rwa [hlshape]) (by rwa [hrshape])
    (List.mem_append_right _ List.mem_cons_self)
  have hcode : inner lhs rhs = emitTwoInputReduction lhs rhs ⟨elem, p ++ q⟩
      ((List.range p.length).map some ++ [some (p ++ q).length])
      ((List.range q.length).map (fun axis => some (p.length + axis)) ++ [some (p ++ q).length])
      ((p ++ q).length + 1) := by
    unfold inner
    rw [hlty, hrty]
    simp [TensorType.rank]
  rw [hcode]
  refine hlowers.congr fun i hi => ?_
  have hi : i.length = (p ++ q).length := hi.length_eq
  rw [List.length_append] at hi
  have hleft := @eval_run_last 0 p.length i
  have hright := @eval_run_last p.length q.length i
  simp only [Nat.zero_add, List.drop_zero] at hleft
  unfold innerProduct
  rw [if_neg (by simp), if_neg (by simp)]
  simp only [List.length_append, List.length_singleton, Nat.add_sub_cancel, ← hi]
  rw [List.getD_append_right _ _ _ _ le_rfl, Nat.sub_self]
  have htake : (i.drop p.length).take q.length = i.drop p.length :=
    List.take_of_length_le (by rw [List.length_drop]; omega)
  apply Finset.sum_congr rfl
  intro k _
  rw [hleft (by omega), hright (by omega), htake]

theorem dimsFit_erasePair {a b : ℕ} (h : PairFits a b shape.length) (hshape : DimsFit shape) :
    DimsFit (erasePair a b shape) := by
  rw [← map_filter_range_pair h]
  exact hshape.map_getD _

/-- The map of a trace or a diagonal fits its operand. -/
theorem operandFits_pair {a b : ℕ} (h : PairFits a b shape.length)
    (hdim : shape.getD b 0 = shape.getD a 0) :
    OperandFits (erasePair a b shape ++ [shape.getD a 0])
      (contractedIndices shape.length (fun axis => axis == a || axis == b)
        (erasePair a b shape).length, shape) := by
  let contracted : ℕ → Bool := fun axis => axis == a || axis == b
  have hkept : survivors shape.length contracted =
      (List.range shape.length).filter fun axis => axis != a && axis != b :=
    List.filter_congr fun axis _ => Bool.not_or _ _
  have hshape : (survivors shape.length contracted).map (fun axis => shape.getD axis 0) =
      erasePair a b shape := by rw [hkept, map_filter_range_pair h]
  have hfits := @operandFits_contractedIndices contracted shape (shape.getD a 0)
    fun axis _ hcontracted => by
      rcases (Bool.or_eq_true _ _).mp hcontracted with ha | hb
      · rw [beq_iff_eq.mp ha]
      · rw [beq_iff_eq.mp hb, hdim]
  have hlen : (survivors shape.length contracted).length = (erasePair a b shape).length := by
    rw [← hshape, List.length_map]
  rwa [hshape, hlen] at hfits

theorem trace_lowers {axes : Option (ℕ × ℕ)} {a b : ℕ}
    (haxes : pairAxes axes shape.length = (a, b)) (h : PairFits a b shape.length)
    (hdim : shape.getD b 0 = shape.getD a 0) (hty : input.ty = ⟨elem, shape⟩) (hx : input.Holds x) :
    Lowers (trace input axes) ⟨elem, erasePair a b shape⟩
      (Arrays.trace a b (shape.getD a 0) x) := by
  have hshape : input.ty.shape = shape := by rw [hty]
  have hne : shape ≠ [] := fun hnil => by
    rw [hnil] at h
    exact absurd h.1 (Nat.not_lt_zero _)
  let indices := contractedIndices shape.length (fun axis => axis == a || axis == b)
    (erasePair a b shape).length
  have hfits : OperandFits (erasePair a b shape ++ [shape.getD a 0]) (indices, input.ty.shape) := by
    rw [hshape]
    exact operandFits_pair h hdim
  have hlowers := @emitOneInputReduction_lowers R _ input x ⟨elem, erasePair a b shape⟩ indices _
    (dimsFit_erasePair h (hshape ▸ input.dims_fit)) (by rwa [hshape]) hx hfits (mem_contractedIndices _ h.1 (by simp))
  have hcode : trace input axes = emitOneInputReduction input ⟨elem, erasePair a b shape⟩ indices
      ((erasePair a b shape).length + 1) := by
    have haxes : axes.getD (shape.length - 2, shape.length - 1) = (a, b) := haxes
    have hremoved : removeAxesShape ⟨elem, shape⟩ a b = erasePair a b shape := removeAxesShape_eq h
    unfold trace
    rw [hty]
    simp only [TensorType.rank, haxes, hremoved]
    rfl
  rw [hcode]
  refine hlowers.congr fun i hi => ?_
  have hi : i.length = (erasePair a b shape).length := hi.length_eq
  unfold Arrays.trace
  apply Finset.sum_congr rfl
  intro k _
  have hread : indices.eval (i ++ [k]) = insertPair a b i k k := by
    show (contractedIndices _ _ (erasePair a b shape).length).eval _ = _
    rw [← hi]
    exact eval_contractedIndices_pair h (hi.trans (length_erasePair h))
  rw [hread]

omit [CommSemiring R] in
theorem diagonal_lowers {axes : Option (ℕ × ℕ)} {a b : ℕ}
    (haxes : pairAxes axes shape.length = (a, b)) (h : PairFits a b shape.length)
    (hdim : shape.getD b 0 = shape.getD a 0) (hty : input.ty = ⟨elem, shape⟩) (hx : input.Holds x) :
    Lowers (diagonal input axes) ⟨elem, erasePair a b shape ++ [shape.getD a 0]⟩
      (Arrays.diagonal a b x) := by
  have hshape : input.ty.shape = shape := by rw [hty]
  have hne : shape ≠ [] := fun hnil => by
    rw [hnil] at h
    exact absurd h.1 (Nat.not_lt_zero _)
  let ty : TensorType := ⟨elem, erasePair a b shape ++ [shape.getD a 0]⟩
  let indices := contractedIndices shape.length (fun axis => axis == a || axis == b)
    (erasePair a b shape).length
  have hfits : OperandFits ty.shape (indices, input.ty.shape) := by
    rw [hshape]
    exact operandFits_pair h hdim
  have hread : ∀ p, InBounds p ty.shape →
      (readOperands [input] [indices] p).bind List.head? = some (Arrays.diagonal a b x p) := by
    intro p hp
    have hcell := hx _ (hfits.inBounds hp)
    dsimp only at hcell
    have hnil : p ≠ [] := fun hnil => by
      rw [hnil] at hp
      have hlength := hp.length_eq
      simp [ty] at hlength
    have hsplit := List.dropLast_append_getLast hnil
    have hinit : p.dropLast.length = (erasePair a b shape).length := by
      rw [List.length_dropLast, hp.length_eq]
      simp [ty]
    have hposition : indices.eval p = insertPair a b p.dropLast (p.getLastD 0) (p.getLastD 0) := by
      rw [List.getLastD_eq_getLast?, List.getLast?_eq_some_getLast hnil, Option.getD_some]
      conv_lhs => rw [← hsplit]
      show (contractedIndices _ _ (erasePair a b shape).length).eval _ = _
      rw [← hinit]
      exact eval_contractedIndices_pair h (hinit.trans (length_erasePair h))
    rw [hposition] at hcell
    have hvalue : Arrays.diagonal a b x p =
        x (insertPair a b p.dropLast (p.getLastD 0) (p.getLastD 0)) := rfl
    rw [hvalue]
    simp only [readOperands, hposition, hcell, Cell.value?, List.zip_cons_cons, List.zip_nil_left,
      List.mapM_cons, List.mapM_nil]
    rfl
  have hdims : DimsFit ty.shape := by
    have hinput : DimsFit shape := hshape ▸ input.dims_fit
    exact List.forall_mem_append.mpr
      ⟨dimsFit_erasePair h hinput, List.forall_mem_singleton.mpr (hinput.getD_lt a)⟩
  obtain ⟨value, hvalue, hvalueTy, -, hholds⟩ := @exists_appendLinalgParallel R R [input]
    (.tensor ty (fun _ => .unwritten) hdims) ty [indices] (fun _ args => args.head?) _ rfl rfl rfl
    (List.forall_mem_singleton.mpr hfits) hread
  refine ⟨value, ?_, hvalueTy, hholds⟩
  have haxes : axes.getD (shape.length - 2, shape.length - 1) = (a, b) := haxes
  have hremoved : removeAxesShape ⟨elem, shape⟩ a b = erasePair a b shape := removeAxesShape_eq h
  have hrank : (erasePair a b shape ++ [shape.getD a 0]).length - 1 =
      (erasePair a b shape).length := by simp
  unfold diagonal
  rw [hty]
  simp only [ensureTensorValue_eq (show input.ty.shape ≠ [] by rwa [hshape]), TensorType.rank,
    TensorType.dim, haxes, hremoved, hrank, hty, bind, Except.bind]
  rw [appendTensorEmpty_of hdims]
  exact hvalue

/-- Scalars broadcast to every shape. -/
theorem broadcastJoin_nil (shape : List ℕ) : broadcastJoin [] shape = some shape :=
  except_toOption_eq_some_iff.mpr (broadcastShapeSlices_eq_right_iff.mpr (broadcastsTo_nil shape))

theorem scaleRight_lowers (hlty : lhs.ty = ⟨elem, []⟩) (hrty : rhs.ty = ⟨elem, shape⟩)
    (hx : lhs.Holds x) (hy : rhs.Holds y) :
    Lowers (inner lhs rhs) ⟨elem, shape⟩ (innerProduct [] shape x y) := by
  have htype : broadcastResultType lhs.ty rhs.ty = .ok ⟨elem, shape⟩ := by
    rw [hlty, hrty, broadcastResultType_eq_ok_iff]
    exact ⟨rfl, rfl, broadcastJoin_nil shape⟩
  have hproduct := @emitBinary_broadcast_lowers R (· * ·) lhs rhs _ x y htype
    (.inr (.inr fun _ => by rw [hlty]; rfl)) (.inl hrty) hx hy
  unfold inner
  rw [if_pos (.inl (by rw [hlty]; rfl))]
  refine hproduct.congr fun i hi => ?_
  have hi : InBounds i shape := hi
  rw [hlty, hrty, broadcastIndex_self hi]
  rfl

theorem scaleLeft_lowers (hshape : shape ≠ []) (hlty : lhs.ty = ⟨elem, shape⟩)
    (hrty : rhs.ty = ⟨elem, []⟩) (hx : lhs.Holds x) (hy : rhs.Holds y) :
    Lowers (inner lhs rhs) ⟨elem, shape⟩ (innerProduct shape [] x y) := by
  have htype : broadcastResultType lhs.ty rhs.ty = .ok ⟨elem, shape⟩ := by
    rw [hlty, hrty, broadcastResultType_eq_ok_iff]
    exact ⟨rfl, rfl, (isPartialJoin_broadcastJoin.comm shape []).trans (broadcastJoin_nil shape)⟩
  have hproduct := @emitBinary_broadcast_lowers R (· * ·) lhs rhs _ x y htype (.inl hlty)
    (.inr (.inr fun _ => by rw [hrty]; rfl)) hx hy
  unfold inner
  rw [if_pos (.inr (by rw [hrty]; rfl))]
  refine hproduct.congr fun i hi => ?_
  have hi : InBounds i shape := hi
  rw [hlty, hrty, broadcastIndex_self hi, innerProduct, if_neg hshape, if_pos rfl]
  rfl

/-- The operands of an outer product as vectors. -/
theorem outer_lowers {p q : List ℕ} (hlty : lhs.ty = ⟨elem, p⟩) (hrty : rhs.ty = ⟨elem, q⟩)
    (hx : lhs.Holds x) (hy : rhs.Holds y) (hp : p.prod < 2 ^ 63) (hq : q.prod < 2 ^ 63) :
    Lowers (outer lhs rhs) ⟨elem, [usizeProduct p, usizeProduct q]⟩ (outerProduct p q x y) := by
  have hpcount : usizeProduct p = p.prod := by
    rw [usizeProduct_eq, Nat.mod_eq_of_lt (by omega)]
  have hqcount : usizeProduct q = q.prod := by
    rw [usizeProduct_eq, Nat.mod_eq_of_lt (by omega)]
  obtain ⟨u, hu, huTy, huHolds⟩ := @reshape_lowers R lhs x elem p [p.prod] hlty hx
    List.prod_singleton.symm (.inr hp) (List.forall_mem_singleton.mpr hp)
  obtain ⟨v, hv, hvTy, hvHolds⟩ := @reshape_lowers R rhs y elem q [q.prod] hrty hy
    List.prod_singleton.symm (.inr hq) (List.forall_mem_singleton.mpr hq)
  let ty : TensorType := ⟨elem, [p.prod, q.prod]⟩
  have hdims : DimsFit ty.shape :=
    List.forall_mem_cons.mpr ⟨hp, List.forall_mem_singleton.mpr hq⟩
  have hfits : ∀ operand ∈ List.zip [[some 0], [some 1]] ([u, v].map (·.ty.shape)),
      OperandFits ty.shape operand := by
    simp only [List.map_cons, List.map_nil, huTy, hvTy, List.zip_cons_cons, List.zip_nil_right,
      List.forall_mem_cons, List.not_mem_nil, false_imp_iff, implies_true, and_true]
    exact ⟨.cons ⟨Nat.zero_lt_two, rfl⟩ .nil, .cons ⟨Nat.one_lt_two, rfl⟩ .nil⟩
  have hread : ∀ i, InBounds i ty.shape →
      (readOperands [u, v] [[some 0], [some 1]] i).bind (fun
        | [u, v] => some (u * v)
        | _ => none) = some (outerProduct p q x y i) := by
    intro i hi
    obtain ⟨r, c, rfl⟩ : ∃ r c, i = [r, c] := List.length_eq_two.mp hi.length_eq
    have hr : r < p.prod := @InBounds.getD_lt [r, c] ty.shape hi 0 Nat.zero_lt_two
    have hc : c < q.prod := @InBounds.getD_lt [r, c] ty.shape hi 1 Nat.one_lt_two
    have hur := huHolds [r] (by rw [huTy]; exact .cons hr .nil)
    have hvc := hvHolds [c] (by rw [hvTy]; exact .cons hc .nil)
    have hnumber : ∀ n k : ℕ, ravel [n] [k] = k := fun n k => by simp [ravel]
    simp only [hnumber] at hur hvc
    simp [readOperands, AffineMap.eval, hur, hvc, Cell.value?, outerProduct]
  obtain ⟨value, hvalue, hvalueTy, -, hholds⟩ := @exists_appendLinalgParallel R R [u, v]
    (.tensor ty (fun _ => .unwritten) hdims) ty [[some 0], [some 1]] (fun _ args => match args with
      | [u, v] => some (u * v)
      | _ => none) _ rfl rfl rfl hfits hread
  refine ⟨value, ?_, by rw [hpcount, hqcount]; exact hvalueTy, hholds⟩
  have hlcount : elementCount lhs.ty = p.prod := by rw [hlty]; exact hpcount
  have hrcount : elementCount rhs.ty = q.prod := by rw [hrty]; exact hqcount
  have hlelem : lhs.ty.elem = elem := by rw [hlty]
  have hrelem : rhs.ty.elem = elem := by rw [hrty]
  unfold outer
  simp only [hlcount, hrcount, hlelem, hrelem, hu, hv, bind, Except.bind]
  show (appendTensorEmpty ty).bind _ = _
  rw [appendTensorEmpty_of hdims]
  exact hvalue

/-! ### Where the lengths do not fit -/

omit [CommSemiring R] in
/-- A reshape to a vector of the computed length succeeds for no other length. -/
theorem prod_lt_of_reshape {value : Value R}
    (h : reshape input ⟨input.ty.elem, [elementCount input.ty]⟩ = .ok value)
    (hvalue : value.ty.shape = [elementCount input.ty]) : input.ty.shape.prod < 2 ^ 63 := by
  have hcount : elementCount input.ty = input.ty.shape.prod % 2 ^ 64 := usizeProduct_eq _
  have hexact : elementCount input.ty = input.ty.shape.prod := by
    unfold reshape at h
    split_ifs at h with hsame hscalar
    · -- a vector already
      have hshape : input.ty.shape = [elementCount input.ty] := congrArg TensorType.shape hsame
      conv_rhs => rw [hshape]
      exact List.prod_singleton.symm
    · have hnil : input.ty.shape = [] :=
        List.eq_nil_of_length_eq_zero (hscalar.resolve_left (by simp [TensorType.rank]))
      rw [hcount, hnil]
      rfl
    · obtain ⟨vector, hflat, hvector⟩ := except_bind_eq_ok_iff.mp h
      obtain rfl : vector = value := Except.ok.inj hvector
      unfold flat at hflat
      split_ifs at hflat
      · obtain rfl := Except.ok.inj hflat
        conv_rhs => rw [hvalue]
        exact List.prod_singleton.symm
      · -- the collapse is verified
        obtain ⟨_, -, hcollapse⟩ := except_bind_eq_ok_iff.mp hflat
        obtain ⟨_, hgroups, -⟩ := except_bind_eq_ok_iff.mp hcollapse
        obtain ⟨-, -, -, hprod⟩ := verify_eq_ok_iff.mp hgroups
        rw [reassociationForRank, List.map_singleton, TensorType.rank, map_getD_range] at hprod
        exact List.singleton_inj.mp hprod
    · rename_i hrank
      exact absurd rfl hrank
  rw [← hexact]
  exact value.dims_fit _ (by rw [hvalue]; exact List.mem_cons_self)

theorem prod_lt_of_outer {value : Value R} (h : outer lhs rhs = .ok value) :
    lhs.ty.shape.prod < 2 ^ 63 ∧ rhs.ty.shape.prod < 2 ^ 63 := by
  unfold outer at h
  obtain ⟨u, hu, hrest⟩ := except_bind_eq_ok_iff.mp h
  obtain ⟨v, hv, hrest⟩ := except_bind_eq_ok_iff.mp hrest
  obtain ⟨_, -, hparallel⟩ := except_bind_eq_ok_iff.mp hrest
  have hfits := operandFits_of_appendLinalgParallel hparallel
  have hufits := hfits _ List.mem_cons_self
  have hvfits := hfits _ (List.mem_cons_of_mem _ List.mem_cons_self)
  have hvector : ∀ {place count : ℕ} {shape bounds : List ℕ}, bounds.getD place 0 = count →
      OperandFits bounds ([some place], shape) → shape = [count] := by
    intro place count shape bounds hcount hoperand
    obtain ⟨dim, rest, ⟨-, hdim⟩, hnil, rfl⟩ := List.forall₂_cons_left_iff.mp hoperand
    cases hnil
    rw [← hcount, hdim]
  exact ⟨prod_lt_of_reshape hu (hvector rfl hufits), prod_lt_of_reshape hv (hvector rfl hvfits)⟩

end Lowerings

/-! ## The NumPy definitions -/

/-- What the contractions compute. -/
def contractedArray {R : Type} [CommSemiring R] (op : CallOp) (tys : List TensorType)
    (arrays : List (List ℕ → R)) : List ℕ → R :=
  match op, tys, arrays with
  | .dot, [lhs, rhs], [x, y] => innerProduct lhs.shape rhs.shape x y
  | .vecdot axis, [lhs, _], [x, y] => Arrays.vecdot (axis.getD (lhs.rank - 1)) lhs.shape x y
  | .inner, [lhs, rhs], [x, y] => innerProduct lhs.shape rhs.shape x y
  | .outer, [lhs, rhs], [x, y] => outerProduct lhs.shape rhs.shape x y
  | .trace axes, [input], [x] =>
      Arrays.trace (pairAxes axes input.rank).1 (pairAxes axes input.rank).2
        (input.dim (pairAxes axes input.rank).1) x
  | .diagonal axes, [input], [x] =>
      Arrays.diagonal (pairAxes axes input.rank).1 (pairAxes axes input.rank).2 x
  | _, _, _ => fun _ => 0

/-- The contraction of any operands is lowered to its NumPy definition. -/
def ContractionLowersTo (op : CallOp) (tys : List TensorType) (ty : TensorType) : Prop :=
  ∀ (R : Type) [CommSemiring R] (args : List (Value R)) (arrays : List (List ℕ → R)),
    args.map (·.ty) = tys → List.Forall₂ Value.Holds args arrays →
      Lowers (lowerContraction op args) ty (contractedArray op tys arrays)

/-- MLIR can parse the types of the vectors of an outer product. -/
def VectorsFit : CallOp → List TensorType → Prop
  | .outer, tys => ∀ ty ∈ tys, ty.shape.prod < 2 ^ 63
  | _, _ => True

theorem contractionLowersTo_of_vectorsFit {op : CallOp} {tys : List TensorType} {ty : TensorType}
    (htyped : ContractionTyped op tys ty) (hfits : VectorsFit op tys) :
    ContractionLowersTo op tys ty := by
  intro R _ args arrays htys hargs
  cases htyped with
  | dot n _ | scaleRight shape _ | scaleLeft _ hrank | inner p q n _ _ | outer p q _
  | vecdot _ haxis =>
      obtain ⟨lhs, rhs, x, y, rfl, rfl, hlty, hrty, hx, hy⟩ := exists_binary hargs htys
      first
        | exact inner_lowers (p := []) (q := []) hlty hrty hx hy
        | exact scaleRight_lowers hlty hrty hx hy
        | exact scaleLeft_lowers hrank hlty hrty hx hy
        | exact inner_lowers hlty hrty hx hy
        | exact outer_lowers hlty hrty hx hy (hfits _ List.mem_cons_self)
            (hfits _ (List.mem_cons_of_mem _ List.mem_cons_self))
        | exact vecdot_lowers haxis hlty hrty hx hy
  | trace _ haxes hpair hdim =>
      obtain ⟨input, x, rfl, rfl, hty, hx⟩ := exists_unary hargs htys
      have hlowers := trace_lowers haxes hpair hdim hty hx
      unfold contractedArray
      simp only [TensorType.rank, TensorType.dim, haxes]
      exact hlowers
  | diagonal haxes hpair hdim =>
      obtain ⟨input, x, rfl, rfl, hty, hx⟩ := exists_unary hargs htys
      have hlowers := diagonal_lowers haxes hpair hdim hty hx
      unfold contractedArray
      simp only [TensorType.rank, haxes]
      exact hlowers

/-- **Where the contractions are lowered to the NumPy definitions**: everywhere but
at an outer product that flattens `2 ^ 63` elements or more.  No operand has a type
that MLIR cannot parse. -/
theorem contractionLowersTo_iff {op : CallOp} {tys : List TensorType} {ty : TensorType}
    (hop : op.contracts = true) (hok : inferCallResults op tys = .ok [ty]) :
    ContractionLowersTo op tys ty ↔ ((∀ ty ∈ tys, DimsFit ty.shape) → VectorsFit op tys) := by
  obtain ⟨ty', hty, htyped⟩ := contractionTyped_of_inferCallResults hop hok
  obtain rfl : ty = ty' := (List.cons.inj hty).1
  constructor
  · intro h hparsed
    cases htyped with
    | outer p q _ =>
        rename_i elem _
        let zeros (shape : List ℕ) (hfit : DimsFit shape) : Value ℕ :=
          .tensor ⟨elem, shape⟩ (fun _ => .written 0) hfit
        have hzeros : ∀ shape hfit, (zeros shape hfit).Holds fun _ => (0 : ℕ) :=
          fun _ _ _ _ => rfl
        have hpfit : DimsFit p := hparsed _ List.mem_cons_self
        have hqfit : DimsFit q := hparsed _ (List.mem_cons_of_mem _ List.mem_cons_self)
        obtain ⟨value, hvalue, -⟩ := h ℕ [zeros p hpfit, zeros q hqfit] [fun _ => 0, fun _ => 0]
          rfl (.cons (hzeros p hpfit) (.cons (hzeros q hqfit) .nil))
        obtain ⟨hp, hq⟩ := prod_lt_of_outer hvalue
        exact List.forall_mem_cons.mpr ⟨hp, List.forall_mem_singleton.mpr hq⟩
    | _ => trivial
  · intro hfits R _ args arrays htys hargs
    have hparsed : ∀ ty ∈ tys, DimsFit ty.shape := by
      rintro ty hty
      rw [← htys] at hty
      obtain ⟨arg, -, rfl⟩ := List.mem_map.mp hty
      exact arg.dims_fit
    exact contractionLowersTo_of_vectorsFit htyped (hfits hparsed) R args arrays htys hargs

/-- A trace over the first and the last axis, in the other order. -/
theorem contractionLowersTo_swapped :
    ContractionLowersTo (.trace (some (2, 0))) [⟨.f32, [2, 3, 2]⟩] ⟨.f32, [3]⟩ :=
  (contractionLowersTo_iff rfl rfl).mpr fun _ => trivial

/-- The rules accept an outer product of `2 ^ 32 * (2 ^ 32 + 1)` elements with a
scalar; its operand cannot be flattened to the wrapped length. -/
theorem not_contractionLowersTo_wrapped :
    inferCallResults .outer [⟨.f32, [4294967296, 4294967297]⟩, ⟨.f32, []⟩] =
        .ok [⟨.f32, [4294967296, 1]⟩] ∧
      ¬ ContractionLowersTo .outer [⟨.f32, [4294967296, 4294967297]⟩, ⟨.f32, []⟩]
        ⟨.f32, [4294967296, 1]⟩ := by
  have hok : inferCallResults .outer [⟨.f32, [4294967296, 4294967297]⟩, ⟨.f32, []⟩] =
      .ok [⟨.f32, [4294967296, 1]⟩] := by rfl
  refine ⟨hok, fun h => ?_⟩
  have hfits := (contractionLowersTo_iff rfl hok).mp h (by decide)
  exact absurd (hfits _ List.mem_cons_self) (by decide)

end Knok.Lowering
