import Mathlib
import Knok.NumberFormat
import Knok.Numbers
import Knok.PoolRule
import Knok.Lowering.Conv
import Knok.Lowering.Gather

/-!
# Lowering pooling

The image is padded first, with the least number of its type for a maximum and with
zero for an average.  One `linalg.generic` then runs over the result; its body
extracts the entries under the window one by one, at indices that it computes, and
accumulates them.

### Design decisions

* **Emission and run time.**  The body is unrolled while it is emitted: the constants
  of its index computations are checked once (`buildPool2dReads`), and what it
  computes at a position of the result is `poolElement`.
* **Maxima** of bit patterns are a parameter that keeps numbers apart from patterns
  that are none (`NanMaximum`); which of the two zeros it returns is not said.
* **Padding is not seen.**  The seed and the padding are below every number, so a
  maximum is one of the entries that lie in the image (`maxPool2d_lowers`).
-/

namespace Knok.Lowering

open Arrays Control

/-! ## The code -/

/-- `index_constant_in_block`: index attributes are signed 64-bit numbers. -/
def indexConstantInBlock (value : ℕ) : Except Error (BitVec 64) := do
  verify (value < 2 ^ 63) "integer constant out of range for attribute"
  return BitVec.ofNat 64 value

/-- The constants that `scaled_index_in_block` emits. -/
structure ScaledIndex where
  scale : BitVec 64
  offset : Option (BitVec 64)

/-- `scaled_index_in_block`: nothing is added for an offset of zero. -/
def scaledIndexInBlock (scale offset : ℕ) : Except Error ScaledIndex := do
  let scale ← indexConstantInBlock scale
  if offset = 0 then return ⟨scale, none⟩
  let offset ← indexConstantInBlock offset
  return ⟨scale, some offset⟩

/-- The index that is computed. -/
def ScaledIndex.eval (s : ScaledIndex) (index : BitVec 64) : BitVec 64 :=
  let scaled := index * s.scale
  s.offset.elim scaled fun offset => scaled + offset

/-- The rows and columns that `build_pool2d_body` reads, in its order. -/
def buildPool2dReads (options : Pool2dOptions) :
    Except Error (List (ScaledIndex × ScaledIndex)) := do
  let reads ← (List.range options.kernel.1).mapM fun kernelH =>
    (List.range options.kernel.2).mapM fun kernelW => do
      let h ← scaledIndexInBlock options.stride.1 (usizeMul kernelH options.dilation.1)
      let w ← scaledIndexInBlock options.stride.2 (usizeMul kernelW options.dilation.2)
      return (h, w)
  return reads.flatten

/-- `Pool2dReduction`: the constant that the accumulator starts from, what is done
with an entry, and what is done last with the number of entries. -/
structure Pool2dReduction (R : Type) where
  initial : Except Error R
  combine : R → R → R
  finish : ℕ → R → R

/-- The element that was read, if there was one. -/
def ReadOutcome.element? {R : Type} : ReadOutcome R → Option R
  | .element x => some x
  | .assertionFailed | .outOfBounds => none

section Emission

variable {R : Type}

/-- What the body of `build_pool2d_body` computes at a position of the result. -/
def poolElement (input : Value R) (reads : List (ScaledIndex × ScaledIndex))
    (combine : R → R → R) (initial : R) (i : List ℕ) : Option R :=
  let index := fun axis => BitVec.ofNat 64 (i.getD axis 0)
  reads.foldl (fun acc read => do
    let value ← (extractAt input
      [index 0, read.1.eval (index 1), read.2.eval (index 2), index 3]).element?
    return combine (← acc) value) (some initial)

/-- `emit_pool2d_generic`. -/
def emitPool2dGeneric (input : Value R) (ty : TensorType) (options : Pool2dOptions)
    (reduction : Pool2dReduction R) : Except Error (Value R) := do
  let initial ← reduction.initial
  let reads ← buildPool2dReads options
  verify (input.kind = .tensor ∧ input.ty.rank = 4)
    "tensor.extract expects a tensor and one index for each axis"
  let count := usizeMul options.kernel.1 options.kernel.2
  let empty ← appendTensorEmpty ty
  appendLinalgParallel ([] : List (Value R)) empty ty [] fun i _ =>
    (poolElement input reads reduction.combine initial i).map (reduction.finish count)

/-- `pad_pool2d_input`. -/
def padPool2dInput (input : Value R) (options : Pool2dOptions) (padLiteral : Except Error R) :
    Except Error (Value R) :=
  let padding := options.padding
  if padding.top = 0 ∧ padding.bottom = 0 ∧ padding.left = 0 ∧ padding.right = 0 then .ok input
  else do
    let ty : TensorType := ⟨input.ty.elem, [input.ty.dim 0,
      paddedExtent (input.ty.dim 1) padding.top padding.bottom,
      paddedExtent (input.ty.dim 2) padding.left padding.right, input.ty.dim 3]⟩
    let pad ← padLiteral
    appendTensorPad input ty [0, padding.top, padding.left, 0]
      [0, padding.bottom, padding.right, 0] (.scalar ty.elem (.written pad))

/-- `pool2d_output_type`. -/
def pool2dOutputType (input : TensorType) (options : Pool2dOptions) : Except Error TensorType := do
  let rows ← outputExtent (input.dim 1) options.kernel.1 options.dilation.1 options.stride.1
  let cols ← outputExtent (input.dim 2) options.kernel.2 options.dilation.2 options.stride.2
  return ⟨input.elem, [input.dim 0, rows, cols, input.dim 3]⟩

end Emission

/-- The pattern that `max_pool_padding_literal` denotes: negative infinity
(`"0xFF800000"` and so on) or the least integer. -/
def maxPoolPaddingLiteral : (elem : ElementType) → Except Error (BitVec elem.width)
  | .bool => .error (.msg "max_pool2d does not support bool tensors")
  | .f32 => .ok (BitVec.ofNat 32 0xFF800000)
  | .f64 => .ok (BitVec.ofNat 64 0xFFF0000000000000)
  | .f16 => .ok (BitVec.ofNat 16 0xFC00)
  | .bf16 => .ok (BitVec.ofNat 16 0xFF80)
  | .i32 => .ok (BitVec.ofInt 32 (-2147483648))
  | .i64 => .ok (BitVec.ofInt 64 (-9223372036854775808))

/-- `max_pool2d`, with a maximum of any values and the padding that is written for it. -/
def maxPool2dOf {V : Type} (maximum : V → V → V) (padding : Except Error V) (input : Value V)
    (options : Pool2dOptions) : Except Error (Value V) := do
  let input ← padPool2dInput input options padding
  let ty ← pool2dOutputType input.ty options
  emitPool2dGeneric input ty options ⟨padding, maximum, fun _ acc => acc⟩

/-- `max_pool2d`. -/
def maxPool2d {elem : ElementType} (maximum : NanMaximum elem.isNan elem.scale)
    (input : Value (BitVec elem.width)) (options : Pool2dOptions) :
    Except Error (Value (BitVec elem.width)) :=
  maxPool2dOf maximum.op (maxPoolPaddingLiteral elem) input options

/-- `avg_pool2d`. -/
def avgPool2d {K : Type} [Field K] (input : Value K) (options : Pool2dOptions) :
    Except Error (Value K) := do
  let input ← padPool2dInput input options (.ok 0)
  let ty ← pool2dOutputType input.ty options
  emitPool2dGeneric input ty options
    ⟨.ok 0, (· + ·), fun count acc => acc / decimal (toString count ++ ".0")⟩

/-! ## Indices -/

theorem indexConstantInBlock_of_lt {value : ℕ} (h : value < 2 ^ 63) :
    indexConstantInBlock value = .ok (BitVec.ofNat 64 value) := by
  rw [indexConstantInBlock, verify_of h]
  rfl

/-- The constants of an index that is scaled and moved. -/
def scaledIndex (scale offset : ℕ) : ScaledIndex :=
  ⟨BitVec.ofNat 64 scale, if offset = 0 then none else some (BitVec.ofNat 64 offset)⟩

theorem scaledIndexInBlock_of_lt {scale offset : ℕ} (hscale : scale < 2 ^ 63)
    (hoffset : offset < 2 ^ 63) :
    scaledIndexInBlock scale offset = .ok (scaledIndex scale offset) := by
  rw [scaledIndexInBlock, indexConstantInBlock_of_lt hscale, scaledIndex]
  by_cases hzero : offset = 0
  · rw [if_pos hzero]
    show (if offset = 0 then _ else _) = _
    rw [if_pos hzero]
    rfl
  · rw [if_neg hzero]
    show (if offset = 0 then _ else (indexConstantInBlock offset).bind _) = _
    rw [if_neg hzero, indexConstantInBlock_of_lt hoffset]
    rfl

theorem eval_scaledIndex (scale offset p : ℕ) :
    (scaledIndex scale offset).eval (BitVec.ofNat 64 p) = BitVec.ofNat 64 (p * scale + offset) := by
  unfold scaledIndex ScaledIndex.eval
  dsimp only
  split_ifs with hzero
  · rw [hzero, Nat.add_zero, BitVec.ofNat_mul]
    rfl
  · rw [BitVec.ofNat_add, BitVec.ofNat_mul]
    rfl

/-- The positions of two axes, row by row. -/
theorem map_positions_pair {α : Type} (m n : ℕ) (f : ℕ → ℕ → α) :
    (positions [m, n]).map (fun k => f (k.getD 0 0) (k.getD 1 0)) =
      ((List.range m).map fun a => (List.range n).map (f a)).flatten := by
  have hrow : positions [n] = (List.range n).map fun b => [b] := List.map_eq_flatMap.symm
  rw [positions, hrow, List.map_flatMap, List.flatMap_def]
  apply congrArg List.flatten
  apply List.map_congr_left
  intro a _
  rw [List.map_map, List.map_map]
  rfl

/-! ## Sizes -/

/-- The sizes that a lowering handles: dimensions and strides fit signed 64-bit
attributes, and the extents of the dilated window are words. -/
structure PoolTypesFit (options : Pool2dOptions) (inputTy : TensorType) : Prop where
  padded_fits : DimsFit (paddedShape options.asConv inputTy.shape)
  effective_rows : (options.kernel.1 - 1) * options.dilation.1 + 1 < 2 ^ 64
  effective_cols : (options.kernel.2 - 1) * options.dilation.2 + 1 < 2 ^ 64
  strides_fit : options.stride.1 < 2 ^ 63 ∧ options.stride.2 < 2 ^ 63

section Sizes

variable {options : Pool2dOptions} {inputTy ty : TensorType} {elem : ElementType} {d : ImageSizes}

theorem PoolTypesFit.extentsFit (hfits : PoolTypesFit options inputTy)
    (h : Pool2dTypes inputTy ty options elem d) : options.ExtentsFit d := by
  have hpadded := hfits.padded_fits
  rw [h.input_ty] at hpadded
  have hrows : d.rows + options.padding.top + options.padding.bottom < 2 ^ 63 := hpadded.getD_lt 1
  have hcols : d.cols + options.padding.left + options.padding.right < 2 ^ 63 := hpadded.getD_lt 2
  exact ⟨hfits.effective_rows, hfits.effective_cols, hrows.trans (by norm_num),
    hcols.trans (by norm_num)⟩

/-- The type that is computed from the padded image is the inferred one. -/
theorem pool2dOutputType_eq (h : Pool2dTypes inputTy ty options elem d)
    (hfit : options.ExtentsFit d) :
    pool2dOutputType ⟨elem, paddedShape options.asConv d.image⟩ options = .ok ty := by
  have hrows := h.rows_fit
  have hcols := h.cols_fit
  have hty := h.ty_eq
  rw [paddedExtent_of_lt hfit.padded_rows] at hrows hty
  rw [paddedExtent_of_lt hfit.padded_cols] at hcols hty
  unfold pool2dOutputType
  have hrowCount : outputExtent ((⟨elem, paddedShape options.asConv d.image⟩ : TensorType).dim 1)
      options.kernel.1 options.dilation.1 options.stride.1 = _ :=
    outputExtent_eq h.kernel_pos.1 hrows
  have hcolCount : outputExtent ((⟨elem, paddedShape options.asConv d.image⟩ : TensorType).dim 2)
      options.kernel.2 options.dilation.2 options.stride.2 = _ :=
    outputExtent_eq h.kernel_pos.2 hcols
  rw [hrowCount, hcolCount, hty]
  rfl

theorem dimsFit_pool (h : Pool2dTypes inputTy ty options elem d)
    (hfits : PoolTypesFit options inputTy) : DimsFit ty.shape := by
  have hpadded := hfits.padded_fits
  rw [h.input_ty] at hpadded
  have hbatch : d.batch < 2 ^ 63 := hpadded.getD_lt 0
  have hrows : d.rows + options.padding.top + options.padding.bottom < 2 ^ 63 := hpadded.getD_lt 1
  have hcols : d.cols + options.padding.left + options.padding.right < 2 ^ 63 := hpadded.getD_lt 2
  have hchannels : d.channels < 2 ^ 63 := hpadded.getD_lt 3
  have hfit := hfits.extentsFit h
  have hrowsFit := h.rows_fit
  have hcolsFit := h.cols_fit
  have hty := h.ty_eq
  rw [paddedExtent_of_lt hfit.padded_rows, effectiveExtent_of_lt hfit.effective_rows]
    at hrowsFit hty
  rw [paddedExtent_of_lt hfit.padded_cols, effectiveExtent_of_lt hfit.effective_cols]
    at hcolsFit hty
  have hrowCount := (@windowCount_le _ _ options.stride.1 (Nat.succ_pos _) hrowsFit
    hfit.padded_rows).2
  have hcolCount := (@windowCount_le _ _ options.stride.2 (Nat.succ_pos _) hcolsFit
    hfit.padded_cols).2
  rw [hty]
  unfold DimsFit ImageSizes.output
  simp only [List.forall_mem_cons, List.not_mem_nil, false_imp_iff, implies_true, and_true]
  exact ⟨hbatch, hrowCount.trans_lt hrows, hcolCount.trans_lt hcols, hchannels⟩

/-- The row and the column that are read at a kernel position. -/
def poolRead (options : Pool2dOptions) (kh kw : ℕ) : ScaledIndex × ScaledIndex :=
  (scaledIndex options.stride.1 (kh * options.dilation.1),
    scaledIndex options.stride.2 (kw * options.dilation.2))

/-- Some window lies in the padded image. -/
theorem outputDims_pos (h : Pool2dTypes inputTy ty options elem d) (hfit : options.ExtentsFit d) :
    0 < ty.dim 1 ∧ 0 < ty.dim 2 := by
  have hrows := h.rows_fit
  have hcols := h.cols_fit
  have hty := h.ty_eq
  rw [paddedExtent_of_lt hfit.padded_rows, effectiveExtent_of_lt hfit.effective_rows] at hrows hty
  rw [paddedExtent_of_lt hfit.padded_cols, effectiveExtent_of_lt hfit.effective_cols] at hcols hty
  rw [hty]
  show 0 < windowCount _ _ _ ∧ 0 < windowCount _ _ _
  rw [(windowCount_le (Nat.succ_pos _) hrows hfit.padded_rows).1,
    (windowCount_le (Nat.succ_pos _) hcols hfit.padded_cols).1]
  exact ⟨Nat.succ_pos _, Nat.succ_pos _⟩

/-- **The reads that are emitted** are those of the kernel positions, in order. -/
theorem buildPool2dReads_eq (h : Pool2dTypes inputTy ty options elem d)
    (hfits : PoolTypesFit options inputTy) :
    buildPool2dReads options = .ok ((positions options.kernelShape).map fun k =>
      poolRead options (k.getD 0 0) (k.getD 1 0)) := by
  have hfit := hfits.extentsFit h
  have hpadded := hfits.padded_fits
  rw [h.input_ty] at hpadded
  have hrows : d.rows + options.padding.top + options.padding.bottom < 2 ^ 63 := hpadded.getD_lt 1
  have hcols : d.cols + options.padding.left + options.padding.right < 2 ^ 63 := hpadded.getD_lt 2
  obtain ⟨hfirstRow, hfirstCol⟩ := outputDims_pos h hfit
  have hread : ∀ kh < options.kernel.1, ∀ kw < options.kernel.2,
      (do
        let h ← scaledIndexInBlock options.stride.1 (usizeMul kh options.dilation.1)
        let w ← scaledIndexInBlock options.stride.2 (usizeMul kw options.dilation.2)
        return (h, w)) = Except.ok (poolRead options kh kw) := by
    intro kh hkh kw hkw
    -- the first window is read at the offsets alone
    obtain ⟨hrow, hcol⟩ := h.reads_lt hfit hfirstRow hfirstCol hkh hkw
    rw [usizeMul_of_lt (by omega), usizeMul_of_lt (by omega),
      scaledIndexInBlock_of_lt hfits.strides_fit.1 (by omega),
      scaledIndexInBlock_of_lt hfits.strides_fit.2 (by omega)]
    rfl
  have hinner : ∀ kh ∈ List.range options.kernel.1,
      ((List.range options.kernel.2).mapM fun kw => do
        let h ← scaledIndexInBlock options.stride.1 (usizeMul kh options.dilation.1)
        let w ← scaledIndexInBlock options.stride.2 (usizeMul kw options.dilation.2)
        return (h, w)) = .ok ((List.range options.kernel.2).map (poolRead options kh)) := by
    intro kh hkh
    apply except_mapM_of_forall
    intro kw hkw
    exact hread kh (List.mem_range.mp hkh) kw (List.mem_range.mp hkw)
  unfold buildPool2dReads Pool2dOptions.kernelShape
  rw [except_mapM_of_forall hinner, map_positions_pair]
  rfl

end Sizes

/-! ## What the body computes -/

section Body

variable {R : Type} {options : Pool2dOptions} {ty : TensorType} {elem : ElementType}
  {d : ImageSizes} {input : Value R} {x z : List ℕ → R} {fill : R}

/-- The image with a filler around it. -/
def filled (options : Pool2dOptions) (image : List ℕ) (fill : R) (x : List ℕ → R) (j : List ℕ) :
    R :=
  (window [0, options.padding.top, options.padding.left, 0] image j).elim fill x

/-- `tensor.pad` with any filler. -/
theorem appendTensorPad_filled {shape size lows highs : List ℕ} (hty : input.ty = ⟨elem, shape⟩)
    (hkind : input.kind = .tensor) (hx : input.Holds x) (hlows : DimsFit lows)
    (hhighs : DimsFit highs) (hlowsLen : lows.length = shape.length)
    (hhighsLen : highs.length = shape.length) (hsize : DimsFit size)
    (hsum : size = List.zipWith (· + ·) (shiftBy lows shape) highs) (fill : R) :
    Lowers (appendTensorPad input ⟨elem, size⟩ lows highs (.scalar elem (.written fill)))
      ⟨elem, size⟩ fun j => (window lows shape j).elim fill x := by
  let _ : Zero R := ⟨fill⟩
  exact appendTensorPad_lowers hty hkind hx hlows hhighs hlowsLen hhighsLen hsize hsum

theorem padPool2dInput_lowers (hty : input.ty = ⟨elem, d.image⟩) (hx : input.Holds x)
    (hdims : DimsFit (paddedShape options.asConv d.image)) (fill : R) :
    Lowers (padPool2dInput input options (.ok fill)) ⟨elem, paddedShape options.asConv d.image⟩
      (filled options d.image fill x) := by
  have hrows : d.rows + options.padding.top + options.padding.bottom < 2 ^ 63 := hdims.getD_lt 1
  have hcols : d.cols + options.padding.left + options.padding.right < 2 ^ 63 := hdims.getD_lt 2
  have hkind : input.kind = .tensor := Value.kind_eq_tensor_of_rank
    (show 0 < input.ty.rank by rw [hty]; exact Nat.succ_pos 3)
  unfold padPool2dInput
  dsimp only
  split_ifs with hnone
  · obtain ⟨htop, hbottom, hleft, hright⟩ := hnone
    have hshape : paddedShape options.asConv d.image = d.image := by
      unfold paddedShape Pool2dOptions.asConv
      dsimp only
      rw [htop, hbottom, hleft, hright]
      rfl
    rw [hshape]
    refine hty ▸ (lowers_ok hx).congr fun i hi => ?_
    have hi : InBounds i d.image := by rwa [hty] at hi
    have hlen : [0, 0, 0, 0].length = d.image.length := rfl
    have hzeros : shiftBy [0, 0, 0, 0] i = i := by
      have hshift := shiftBy_zeros i
      rwa [hi.length_eq] at hshift
    unfold filled
    rw [htop, hleft, (window_eq_some_iff hlen).mpr ⟨hi, hzeros.symm⟩]
    rfl
  · have hcode : (⟨input.ty.elem, [input.ty.dim 0,
        paddedExtent (input.ty.dim 1) options.padding.top options.padding.bottom,
        paddedExtent (input.ty.dim 2) options.padding.left options.padding.right,
        input.ty.dim 3]⟩ : TensorType) = ⟨elem, paddedShape options.asConv d.image⟩ := by
      have hrows' : paddedExtent (input.ty.dim 1) options.padding.top options.padding.bottom =
          d.rows + options.padding.top + options.padding.bottom := by
        rw [hty]
        exact paddedExtent_of_lt (hrows.trans (by norm_num))
      have hcols' : paddedExtent (input.ty.dim 2) options.padding.left options.padding.right =
          d.cols + options.padding.left + options.padding.right := by
        rw [hty]
        exact paddedExtent_of_lt (hcols.trans (by norm_num))
      rw [hrows', hcols', hty]
      rfl
    show Lowers (appendTensorPad input _ _ _ (.scalar input.ty.elem (.written fill))) _ _
    rw [hcode, show input.ty.elem = elem by rw [hty]]
    have hlows : [0, options.padding.top, options.padding.left, 0].length = d.image.length := rfl
    have hhighs : [0, options.padding.bottom, options.padding.right, 0].length = d.image.length :=
      rfl
    refine appendTensorPad_filled hty hkind hx ?_ ?_ hlows hhighs hdims ?_ fill
    · simp only [DimsFit, List.forall_mem_cons, List.not_mem_nil, false_imp_iff, implies_true,
        and_true]
      exact ⟨by norm_num, by omega, by omega, by norm_num⟩
    · simp only [DimsFit, List.forall_mem_cons, List.not_mem_nil, false_imp_iff, implies_true,
        and_true]
      exact ⟨by norm_num, by omega, by omega, by norm_num⟩
    · show [d.batch, d.rows + options.padding.top + options.padding.bottom,
        d.cols + options.padding.left + options.padding.right, d.channels] = _
      simp only [ImageSizes.image, shiftBy, List.zipWith_cons_cons, List.zipWith_nil_left,
        Nat.zero_add, Nat.add_zero, Nat.add_comm options.padding.top,
        Nat.add_comm options.padding.left]

/-- An entry that is read at run time. -/
theorem extractAt_ofNat {i shape : List ℕ} (hty : input.ty = ⟨elem, shape⟩)
    (hx : input.Holds x) (hdims : DimsFit shape) (hi : InBounds i shape) :
    (extractAt input (i.map (BitVec.ofNat 64))).element? = some (x i) := by
  unfold extractAt
  dsimp only
  rw [map_toNat_ofNat hdims hi, if_pos (by rw [hty]; exact hi), hx i (by rw [hty]; exact hi)]
  rfl

/-- **The body accumulates the entries under the window**, and every index it computes
lies in the padded image. -/
theorem poolElement_eq {inputTy : TensorType} (h : Pool2dTypes inputTy ty options elem d)
    (hfits : PoolTypesFit options inputTy)
    (hty : input.ty = ⟨elem, paddedShape options.asConv d.image⟩) (hz : input.Holds z)
    (combine : R → R → R) (initial : R) {i : List ℕ} (hi : InBounds i ty.shape) :
    poolElement input ((positions options.kernelShape).map fun k =>
        poolRead options (k.getD 0 0) (k.getD 1 0)) combine initial i =
      some (((positions options.kernelShape).map fun k =>
        z (options.window.poolPosition i k)).foldl combine initial) := by
  have hfit := hfits.extentsFit h
  have hdims := hfits.padded_fits
  rw [h.input_ty] at hdims
  have hi' := hi
  rw [h.ty_eq] at hi'
  obtain ⟨b, p, q, c, rfl, hb, hp, hq, hc⟩ := d.exists_position hi'
  have hp' : p < ty.dim 1 := by rw [h.ty_eq]; exact hp
  have hq' : q < ty.dim 2 := by rw [h.ty_eq]; exact hq
  have hstep : ∀ k ∈ positions options.kernelShape, ∀ acc : R,
      (do
        let value ← (extractAt input [BitVec.ofNat 64 b,
          (poolRead options (k.getD 0 0) (k.getD 1 0)).1.eval (BitVec.ofNat 64 p),
          (poolRead options (k.getD 0 0) (k.getD 1 0)).2.eval (BitVec.ofNat 64 q),
          BitVec.ofNat 64 c]).element?
        return combine (← some acc) value) =
      some (combine acc (z (options.window.poolPosition [b, p, q, c] k))) := by
    intro k hk acc
    have hk := mem_positions.mp hk
    obtain ⟨kh, kw, rfl⟩ := List.length_eq_two.mp hk.length_eq
    obtain ⟨hkh, hkw⟩ : kh < options.kernel.1 ∧ kw < options.kernel.2 := by
      simpa [Pool2dOptions.kernelShape] using hk
    obtain ⟨hrow, hcol⟩ := h.reads_lt hfit hp' hq' hkh hkw
    have hread : InBounds (options.window.poolPosition [b, p, q, c] [kh, kw])
        (paddedShape options.asConv d.image) := inBounds_four.mpr ⟨hb, hrow, hcol, hc⟩
    have hentry := extractAt_ofNat hty hz hdims hread
    unfold poolRead
    dsimp only [List.getD_cons_zero, List.getD_cons_succ]
    rw [eval_scaledIndex, eval_scaledIndex]
    show (extractAt input (List.map (BitVec.ofNat 64)
      (options.window.poolPosition [b, p, q, c] [kh, kw]))).element?.bind _ = _
    rw [hentry]
    rfl
  unfold poolElement
  dsimp only
  rw [List.foldl_map, List.foldl_map]
  exact foldl_some_eq hstep initial

/-- **The lowering shared by the two poolings.** -/
theorem emitPool2dGeneric_lowers {inputTy : TensorType}
    (h : Pool2dTypes inputTy ty options elem d) (hfits : PoolTypesFit options inputTy)
    (hty : input.ty = ⟨elem, paddedShape options.asConv d.image⟩)
    (hz : input.Holds (filled options d.image fill x)) (combine : R → R → R) (initial : R)
    (finish : ℕ → R → R) :
    Lowers (emitPool2dGeneric input ty options ⟨.ok initial, combine, finish⟩) ty fun i =>
      finish (usizeMul options.kernel.1 options.kernel.2)
        (((positions options.kernelShape).map fun k =>
          (options.window.source d.image k i).elim fill x).foldl combine initial) := by
  have hkind : input.kind = .tensor := Value.kind_eq_tensor_of_rank
    (show 0 < input.ty.rank by rw [hty]; exact Nat.succ_pos 3)
  have hrank : input.ty.rank = 4 := by rw [hty]; rfl
  have hdims := dimsFit_pool h hfits
  obtain ⟨value, hvalue, hvalueTy, -, hholds⟩ := @exists_appendLinalgParallel R R []
    (.tensor ty (fun _ => .unwritten) hdims) ty []
    (fun i _ => (poolElement input ((positions options.kernelShape).map fun k =>
      poolRead options (k.getD 0 0) (k.getD 1 0)) combine initial i).map
        (finish (usizeMul options.kernel.1 options.kernel.2)))
    (fun i => finish (usizeMul options.kernel.1 options.kernel.2)
      (((positions options.kernelShape).map fun k =>
        (options.window.source d.image k i).elim fill x).foldl combine initial))
    rfl rfl rfl (by simp) fun i hi => by
      show (poolElement input _ combine initial i).map _ = _
      rw [poolElement_eq h hfits hty hz combine initial hi]
      rfl
  refine ⟨value, ?_, hvalueTy, hholds⟩
  unfold emitPool2dGeneric
  rw [buildPool2dReads_eq h hfits]
  show (verify (input.kind = .tensor ∧ input.ty.rank = 4) _).bind _ = _
  rw [verify_of ⟨hkind, hrank⟩]
  show (appendTensorEmpty ty).bind _ = _
  rw [appendTensorEmpty_of hdims]
  exact hvalue

/-- A stride that the type rule accepts and no index attribute holds. -/
def wideStride : Pool2dOptions := ⟨(1, 1), ⟨0, 0, 0, 0⟩, (2 ^ 63, 1), (1, 1)⟩

theorem emitPool2dGeneric_wide_ne_ok (reduction : Pool2dReduction R) {value : Value R} :
    emitPool2dGeneric input ty wideStride reduction ≠ .ok value := by
  intro hvalue
  unfold emitPool2dGeneric at hvalue
  simp only [except_bind_eq_ok_iff] at hvalue
  obtain ⟨initial, -, reads, hreads, -⟩ := hvalue
  have hrefused : buildPool2dReads wideStride =
      .error (.msg "integer constant out of range for attribute") := rfl
  rw [hrefused] at hreads
  cases hreads

end Body

/-! ## Maxima -/

section Maxima

variable {elem : ElementType}

/-- A negative number and its magnitude say which pattern it is. -/
theorem eq_of_magnitude_eq {x y : BitVec elem.width} (hx : x.msb = true) (hy : y.msb = true)
    (h : elem.magnitude x = elem.magnitude y) : x = y := by
  have hpattern : ∀ z : BitVec elem.width, z.msb = true →
      z.toNat = 2 ^ (elem.width - 1) + elem.magnitude z := by
    intro z hz
    have hhigh : 2 ^ (elem.width - 1) ≤ z.toNat := by
      rw [BitVec.msb_eq_decide] at hz
      exact of_decide_eq_true hz
    have hlt : z.toNat < 2 ^ (elem.width - 1) + 2 ^ (elem.width - 1) := by
      have hpow : 2 ^ (elem.width - 1) + 2 ^ (elem.width - 1) = 2 ^ elem.width := by
        cases elem <;> rfl
      rw [hpow]
      exact z.isLt
    unfold ElementType.magnitude
    rw [Nat.mod_eq_sub_mod hhigh, Nat.mod_eq_of_lt (by omega)]
    omega
  apply BitVec.eq_of_toNat_eq
  rw [hpattern x hx, hpattern y hy, h]

/-- Negative infinity is below every other number. -/
theorem isLowest_negativeInfinity {x : BitVec elem.width} (hfloat : elem.isFloat = true)
    (hsign : x.msb = true) (hmagnitude : elem.magnitude x = elem.infinity) :
    IsLowest elem.isNan elem.scale x := by
  have hpos : 0 < elem.infinity := by cases elem <;> first | decide | cases hfloat
  have hbound : ∀ v, elem.isNan v = false → elem.magnitude v ≤ elem.infinity := by
    intro v hv
    rw [ElementType.isNan, hfloat, Bool.true_and, decide_eq_false_iff_not] at hv
    exact Nat.not_lt.mp hv
  have hscale : ∀ v, elem.scale v =
      if v.msb then -(elem.magnitude v : ℤ) else (elem.magnitude v : ℤ) := fun v => if_pos hfloat
  have hlow : elem.scale x = -(elem.infinity : ℤ) := by
    rw [hscale, if_pos hsign, hmagnitude]
  refine ⟨?_, fun v hv => ?_, fun v hv hle => ?_⟩
  · rw [ElementType.isNan, hmagnitude, decide_eq_false (lt_irrefl _), Bool.and_false]
  · have := hbound v hv
    rw [hlow, hscale]
    split_ifs <;> omega
  · have := hbound v hv
    rw [hlow, hscale] at hle
    cases hneg : v.msb with
    | false =>
        rw [hneg] at hle
        simp only [Bool.false_eq_true, if_false] at hle
        omega
    | true =>
        rw [hneg] at hle
        simp only [if_true] at hle
        exact eq_of_magnitude_eq hneg hsign (by omega)

/-- The least integer is below every other integer. -/
theorem isLowest_minNumericLiteral (hinteger : elem.isFloat = false) :
    IsLowest elem.isNan elem.scale (minNumericLiteral elem) where
  isNan_eq := isNan_minNumericLiteral elem
  le _ _ := (scale_literals_of_not_isFloat hinteger).1
  eq_of_le _ _ hle :=
    (scale_inj hinteger).mp (le_antisymm hle (scale_literals_of_not_isFloat hinteger).1)

/-- **The padding of a maximum is the least number of its type.** -/
theorem exists_maxPoolPaddingLiteral (hnumeric : elem.isNumeric = true) :
    ∃ pad, maxPoolPaddingLiteral elem = .ok pad ∧ IsLowest elem.isNan elem.scale pad := by
  cases elem with
  | bool => cases hnumeric
  | i32 | i64 => exact ⟨_, rfl, isLowest_minNumericLiteral rfl⟩
  | f32 | f64 | f16 | bf16 => exact ⟨_, rfl, isLowest_negativeInfinity rfl (by decide) (by decide)⟩

/-- **The lowering of `max_pool2d` returns a greatest entry of every window**, with the
inferred type: no number where an entry under the window is none, and the padding only
where nothing of the image is under the window. -/
theorem maxPool2dOf_lowers {V α : Type} [LinearOrder α] {isNan : V → Bool} {scale : V → α}
    (maximum : NanMaximum isNan scale) {padding : V} (hlowest : IsLowest isNan scale padding)
    {input : Value V} {x : List ℕ → V} {options : Pool2dOptions} {ty : TensorType}
    (hok : inferCallResults (.maxPool2d options) [input.ty] = .ok [ty])
    (hfits : PoolTypesFit options input.ty) (hx : input.Holds x) :
    ∃ y, Lowers (maxPool2dOf maximum.op (.ok padding) input options) ty y ∧
      ∀ i, InBounds i ty.shape → IsMaximum isNan scale padding
        ((options.window.covered input.ty.shape options.kernelShape i).map x) (y i) := by
  obtain ⟨elem, d, h⟩ := Pool2dTypes.of_maxPool2d hok
  have hdims := hfits.padded_fits
  rw [h.input_ty] at hdims
  obtain ⟨padded, hpadded, hpaddedTy, hfilled⟩ :=
    padPool2dInput_lowers h.input_ty hx hdims padding
  have hemit := emitPool2dGeneric_lowers h hfits hpaddedTy hfilled maximum.op padding
    fun _ acc => acc
  have hcode : maxPool2dOf maximum.op (.ok padding) input options =
      emitPool2dGeneric padded ty options ⟨.ok padding, maximum.op, fun _ acc => acc⟩ := by
    unfold maxPool2dOf
    rw [hpadded]
    show (pool2dOutputType padded.ty options).bind _ = _
    rw [hpaddedTy, pool2dOutputType_eq h (hfits.extentsFit h)]
    rfl
  rw [← hcode] at hemit
  refine ⟨_, hemit, fun i _ => ?_⟩
  rw [h.input_ty]
  exact maximum.isMaximum_window hlowest options.window d.image options.kernelShape i x

/-- The lowering of `max_pool2d` returns a greatest entry of every window: of bit patterns,
whatever the maximum does with the two zeros, and of the values of any order with a least
element for the padding. -/
structure MaxPool2dLowers (options : Pool2dOptions) (inputTy ty : TensorType) : Prop where
  patterns : ∀ (maximum : NanMaximum inputTy.elem.isNan inputTy.elem.scale)
    (input : Value (BitVec inputTy.elem.width)) (x : List ℕ → BitVec inputTy.elem.width),
    input.ty = inputTy → input.Holds x →
    ∃ pad y, maxPoolPaddingLiteral inputTy.elem = .ok pad ∧
      Lowers (maxPool2d maximum input options) ty y ∧
      ∀ i, InBounds i ty.shape → IsMaximum inputTy.elem.isNan inputTy.elem.scale pad
        ((options.window.covered inputTy.shape options.kernelShape i).map x) (y i)
  order : ∀ (α : Type) [LinearOrder α] [OrderBot α] (input : Value α) (x : List ℕ → α),
    input.ty = inputTy → input.Holds x →
    Lowers (maxPool2dOf max (.ok ⊥) input options) ty fun i =>
      ((options.window.covered inputTy.shape options.kernelShape i).map x).foldl max ⊥

theorem maxPool2d_lowers {options : Pool2dOptions} {inputTy ty : TensorType}
    (hok : inferCallResults (.maxPool2d options) [inputTy] = .ok [ty])
    (hfits : PoolTypesFit options inputTy) : MaxPool2dLowers options inputTy ty where
  patterns := by
    rintro maximum input x hty hx
    obtain ⟨elem, d, h⟩ := Pool2dTypes.of_maxPool2d hok
    have hnumeric : inputTy.elem.isNumeric = true := by
      rw [h.input_ty]
      exact h.numeric
    obtain ⟨pad, hpad, hlowest⟩ := exists_maxPoolPaddingLiteral hnumeric
    obtain ⟨y, hlowers, hmaximum⟩ :=
      maxPool2dOf_lowers maximum hlowest (hty.symm ▸ hok) (hty.symm ▸ hfits) hx
    rw [hty] at hmaximum
    exact ⟨pad, y, hpad, by rwa [maxPool2d, hpad], hmaximum⟩
  order := by
    rintro α _ _ input x rfl hx
    obtain ⟨y, hlowers, hmaximum⟩ :=
      maxPool2dOf_lowers (NanMaximum.ofOrder α) isLowest_bot hok hfits hx
    exact hlowers.congr fun i hi => (hmaximum i hi).eq_foldl_max

end Maxima

/-! ## Averages -/

/-- **The lowering of `avg_pool2d` averages every window**, counting padding as zeros,
with the inferred type. -/
theorem avgPool2d_lowers {K : Type} [Field K] {input : Value K} {x : List ℕ → K}
    {options : Pool2dOptions} {ty : TensorType}
    (hok : inferCallResults (.avgPool2d options) [input.ty] = .ok [ty])
    (hfits : PoolTypesFit options input.ty)
    (hcount : options.kernel.1 * options.kernel.2 < 2 ^ 64) (hx : input.Holds x) :
    Lowers (avgPool2d input options) ty
      (Arrays.avgPool2d options.window input.ty.shape options.kernelShape x) := by
  obtain ⟨elem, d, h, -⟩ := Pool2dTypes.of_avgPool2d hok
  have hdims := hfits.padded_fits
  rw [h.input_ty] at hdims
  obtain ⟨padded, hpadded, hpaddedTy, hfilled⟩ := padPool2dInput_lowers h.input_ty hx hdims (0 : K)
  have hemit := emitPool2dGeneric_lowers h hfits hpaddedTy hfilled (· + ·) 0
    fun count acc => acc / decimal (toString count ++ ".0")
  have hcode : avgPool2d input options = emitPool2dGeneric padded ty options
      ⟨.ok 0, (· + ·), fun count acc => acc / decimal (toString count ++ ".0")⟩ := by
    unfold avgPool2d
    rw [hpadded]
    show (pool2dOutputType padded.ty options).bind _ = _
    rw [hpaddedTy, pool2dOutputType_eq h (hfits.extentsFit h)]
    rfl
  rw [← hcode] at hemit
  refine hemit.congr fun i _ => ?_
  have hprod : options.kernelShape.prod = options.kernel.1 * options.kernel.2 := by
    simp [Pool2dOptions.kernelShape]
  have hsum : ((positions options.kernelShape).map fun k =>
      (options.window.source d.image k i).elim 0 x).foldl (· + ·) 0 =
        ∑ k ∈ box options.kernelShape, pull (options.window.source d.image k) x i := by
    rw [List.foldl_map, foldl_add_eq, zero_add, ← List.sum_toFinset _ (nodup_positions _)]
    rfl
  rw [hsum, usizeMul_of_lt hcount, decimal_count, h.input_ty, Arrays.avgPool2d, hprod]

end Knok.Lowering
