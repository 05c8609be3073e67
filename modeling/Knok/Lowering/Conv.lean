import Mathlib
import Knok.ConvRule
import Knok.Lowering.Matmul
import Knok.Lowering.Movement

/-!
# Lowering a convolution

The image is padded first.  With one group the padded image goes straight into
`linalg.conv_2d_nhwc_hwcf`; with more, every group's slices do, and the results
are concatenated along the channels.

### Design decisions

* **Subtractions.**  A subtraction that would wrap is an error here
  (`usizeCheckedSub`), so that a lowering that succeeds has computed none.
* **Attributes.**  Strides and dilations are passed as text and read back as
  signed 64-bit numbers (`i64`).  The positions that the operation reads are
  therefore integers, and it is part of its verifier that they are positions of
  its input.
* **One loop invariant.**  After some groups the accumulated value holds the
  first channels of the whole convolution (`groupedStep_lowers`).
-/

namespace Knok.Lowering

open Arrays Control

/-! ## The code -/

/-- Subtraction that must not wrap. -/
def usizeCheckedSub (a b : ℕ) : Except Error ℕ := do
  verify (b ≤ a) "attempt to subtract with overflow"
  return a - b

/-- The number that a signed 64-bit attribute holds. -/
def i64 (n : ℕ) : ℤ := if n < 2 ^ 63 then n else n - 2 ^ 64

/-- The attributes of a convolution. -/
structure ConvAttrs where
  dilations : ℤ × ℤ
  strides : ℤ × ℤ

/-- `conv2d_attrs`: without attributes the operation has unit strides and
dilations. -/
def conv2dAttrs (options : Conv2dOptions) : ConvAttrs :=
  if options.dilation = (1, 1) ∧ options.stride = (1, 1) then ⟨(1, 1), (1, 1)⟩
  else ⟨(i64 options.dilation.1, i64 options.dilation.2),
    (i64 options.stride.1, i64 options.stride.2)⟩

/-- Every tap lies in the input, along one axis. -/
def TapsFit (extent outs kernels : ℕ) (stride dilation : ℤ) : Prop :=
  ∀ o < outs, ∀ k < kernels, 0 ≤ o * stride + k * dilation ∧ o * stride + k * dilation < extent

instance (extent outs kernels : ℕ) (stride dilation : ℤ) :
    Decidable (TapsFit extent outs kernels stride dilation) :=
  inferInstanceAs (Decidable (∀ o < outs, ∀ k < kernels, _ ∧ _))

/-- The element of the input that a result position and a kernel position read. -/
def ConvAttrs.readPosition (attrs : ConvAttrs) (i k : List ℕ) : List ℕ :=
  [i.getD 0 0, (i.getD 1 0 * attrs.strides.1 + k.getD 0 0 * attrs.dilations.1).toNat,
    (i.getD 2 0 * attrs.strides.2 + k.getD 1 0 * attrs.dilations.2).toNat, k.getD 2 0]

section Emission

variable {R : Type} [CommSemiring R]

/-- The loop over the kernel at a result position. -/
def convElement (input kernel : Value R) (attrs : ConvAttrs) (start : Option R) (i : List ℕ) :
    Option R :=
  (positions (kernel.ty.shape.take 3)).foldl
    (fun acc k => do
      let u ← (input.cell (attrs.readPosition i k)).value?
      let v ← (kernel.cell (k ++ [i.getD 3 0])).value?
      return namedContractionBody [u, v] (← acc)) start

/-- `linalg.conv_2d_nhwc_hwcf`. -/
def appendLinalgConv2dNhwcHwcf (input kernel init : Value R) (ty : TensorType)
    (attrs : ConvAttrs) : Except Error (Value R) := do
  verify (input.kind = .tensor ∧ kernel.kind = .tensor ∧ init.kind = .tensor ∧ init.ty = ty)
    "linalg.conv_2d_nhwc_hwcf operands must be tensors"
  verify (input.ty.elem = ty.elem ∧ kernel.ty.elem = ty.elem ∧ input.ty.rank = 4 ∧
    kernel.ty.rank = 4 ∧ ty.rank = 4 ∧ ty.dim 0 = input.ty.dim 0 ∧
    input.ty.dim 3 = kernel.ty.dim 2 ∧ ty.dim 3 = kernel.ty.dim 3)
    "linalg.conv_2d_nhwc_hwcf operand types do not match"
  verify (TapsFit (input.ty.dim 1) (ty.dim 1) (kernel.ty.dim 0) attrs.strides.1 attrs.dilations.1 ∧
    TapsFit (input.ty.dim 2) (ty.dim 2) (kernel.ty.dim 1) attrs.strides.2 attrs.dilations.2)
    "linalg.conv_2d_nhwc_hwcf reads outside its input"
  resultTensor ty fun i =>
    match convElement input kernel attrs (init.cell i).value? i with
    | some x => .written x
    | none => .unwritten

/-- The number of result positions along one axis. -/
def outputExtent (input kernel dilation stride : ℕ) : Except Error ℕ := do
  let steps ← usizeCheckedSub kernel 1
  let extent ← usizeCheckedSub input (usizeAdd (usizeMul steps dilation) 1)
  return usizeAdd (extent / stride) 1

/-- The path of one group. -/
def conv2dDirect (input kernel : Value R) (options : Conv2dOptions) : Except Error (Value R) := do
  let rows ← outputExtent (input.ty.dim 1) (kernel.ty.dim 0) options.dilation.1 options.stride.1
  let cols ← outputExtent (input.ty.dim 2) (kernel.ty.dim 1) options.dilation.2 options.stride.2
  let ty : TensorType := ⟨input.ty.elem, [input.ty.dim 0, rows, cols, kernel.ty.dim 3]⟩
  let init ← zeroInitializedTensor ty
  appendLinalgConv2dNhwcHwcf input kernel init ty (conv2dAttrs options)

/-- The result of one group. -/
def groupOutput (input kernel : Value R) (options : Conv2dOptions) (group : ℕ) :
    Except Error (Value R) := do
  let inputChannelsPerGroup := input.ty.dim 3 / options.groups
  let outputChannelsPerGroup := kernel.ty.dim 3 / options.groups
  let inputSlice ← slice input
    ⟨input.ty.elem, [input.ty.dim 0, input.ty.dim 1, input.ty.dim 2, inputChannelsPerGroup]⟩
    [0, 0, 0, usizeMul group inputChannelsPerGroup]
  let kernelSlice ← slice kernel
    ⟨kernel.ty.elem, [kernel.ty.dim 0, kernel.ty.dim 1, kernel.ty.dim 2, outputChannelsPerGroup]⟩
    [0, 0, 0, usizeMul group outputChannelsPerGroup]
  conv2dDirect inputSlice kernelSlice options

/-- One round of the loop over the groups. -/
def groupedStep (input kernel : Value R) (options : Conv2dOptions) (output : Option (Value R))
    (group : ℕ) : Except Error (Option (Value R)) := do
  let groupOutput ← groupOutput input kernel options group
  match output with
  | some previous => return some (← concat previous groupOutput 3)
  | none => return some groupOutput

/-- The path of several groups. -/
def groupedConv2d (input kernel : Value R) (options : Conv2dOptions) :
    Except Error (Value R) := do
  match ← (List.range options.groups).foldlM (groupedStep input kernel options) none with
  | some output => return output
  | none => .error (.msg "conv2d groups must be non-zero")

/-- The padded image. -/
def padConv2dInput (input : Value R) (options : Conv2dOptions) : Except Error (Value R) :=
  let padding := options.padding
  if padding.top = 0 ∧ padding.bottom = 0 ∧ padding.left = 0 ∧ padding.right = 0 then .ok input
  else
    let ty : TensorType := ⟨input.ty.elem, [input.ty.dim 0,
      paddedExtent (input.ty.dim 1) padding.top padding.bottom,
      paddedExtent (input.ty.dim 2) padding.left padding.right, input.ty.dim 3]⟩
    appendTensorPad input ty [0, padding.top, padding.left, 0]
      [0, padding.bottom, padding.right, 0] (.scalar ty.elem (.written 0))

/-- A convolution. -/
def conv2d (input kernel : Value R) (options : Conv2dOptions) : Except Error (Value R) := do
  let input ← padConv2dInput input options
  if 1 < options.groups then groupedConv2d input kernel options
  else conv2dDirect input kernel options

end Emission

/-! ## Attributes -/

theorem usizeCheckedSub_of_le {a b : ℕ} (h : b ≤ a) : usizeCheckedSub a b = .ok (a - b) := by
  rw [usizeCheckedSub, verify_of h]
  rfl

theorem conv2dAttrs_eq (options : Conv2dOptions) :
    conv2dAttrs options = ⟨(i64 options.dilation.1, i64 options.dilation.2),
      (i64 options.stride.1, i64 options.stride.2)⟩ := by
  unfold conv2dAttrs
  split_ifs with hunit
  · rw [hunit.1, hunit.2]
    rfl
  · rfl

/-- A multiple that stays below `2 ^ 63` is computed with the number itself. -/
theorem mul_i64 {k n : ℕ} (h : k * n < 2 ^ 63) : (k : ℤ) * i64 n = (k * n : ℕ) := by
  rcases Nat.eq_zero_or_pos k with rfl | hk
  · simp
  · have hn : n < 2 ^ 63 := lt_of_le_of_lt (Nat.le_mul_of_pos_left n hk) h
    rw [i64, if_pos hn, Nat.cast_mul]

theorem tap_i64 {o k stride dilation : ℕ} (h : o * stride + k * dilation < 2 ^ 63) :
    (o : ℤ) * i64 stride + (k : ℤ) * i64 dilation = (o * stride + k * dilation : ℕ) := by
  rw [mul_i64 (by omega), mul_i64 (by omega), Nat.cast_add]

theorem readPosition_conv2dAttrs {options : Conv2dOptions} {p q kh kw : ℕ} (b c ic : ℕ)
    (hrow : p * options.stride.1 + kh * options.dilation.1 < 2 ^ 63)
    (hcol : q * options.stride.2 + kw * options.dilation.2 < 2 ^ 63) :
    (conv2dAttrs options).readPosition [b, p, q, c] [kh, kw, ic] =
      [b, p * options.stride.1 + kh * options.dilation.1,
        q * options.stride.2 + kw * options.dilation.2, ic] := by
  rw [conv2dAttrs_eq]
  show [b, ((p : ℤ) * i64 options.stride.1 + (kh : ℤ) * i64 options.dilation.1).toNat,
    ((q : ℤ) * i64 options.stride.2 + (kw : ℤ) * i64 options.dilation.2).toNat, ic] = _
  rw [tap_i64 hrow, tap_i64 hcol, Int.toNat_natCast, Int.toNat_natCast]

theorem tapsFit_i64 {extent outs kernels stride dilation : ℕ} (hextent : extent < 2 ^ 63)
    (h : ∀ o < outs, ∀ k < kernels, o * stride + k * dilation < extent) :
    TapsFit extent outs kernels (i64 stride) (i64 dilation) := by
  intro o ho k hk
  have htap := h o ho k hk
  rw [tap_i64 (htap.trans hextent)]
  exact ⟨Int.natCast_nonneg _, Int.ofNat_lt.mpr htap⟩

/-! ## One group -/

/-- The options and the image fit the numbers that the lowering computes with. -/
structure ConvFits (options : Conv2dOptions) (rows cols : ℕ) (d : ConvSizes) : Prop where
  rows_lt : rows < 2 ^ 63
  cols_lt : cols < 2 ^ 63
  effective_rows : (d.kernelRows - 1) * options.dilation.1 + 1 < 2 ^ 64
  effective_cols : (d.kernelCols - 1) * options.dilation.2 + 1 < 2 ^ 64
  kernel_pos : 0 < d.kernelRows ∧ 0 < d.kernelCols
  rows_fit : effectiveExtent d.kernelRows options.dilation.1 ≤ rows
  cols_fit : effectiveExtent d.kernelCols options.dilation.2 ≤ cols

/-- The number of result rows of a padded image. -/
def resultRows (options : Conv2dOptions) (rows : ℕ) (d : ConvSizes) : ℕ :=
  windowCount rows (effectiveExtent d.kernelRows options.dilation.1) options.stride.1

/-- The number of result columns of a padded image. -/
def resultCols (options : Conv2dOptions) (cols : ℕ) (d : ConvSizes) : ℕ :=
  windowCount cols (effectiveExtent d.kernelCols options.dilation.2) options.stride.2

/-- The shape of the result. -/
def resultShape (options : Conv2dOptions) (d : ConvSizes) : List ℕ :=
  d.output (resultRows options d.rows d) (resultCols options d.cols d)

section Direct

variable {options : Conv2dOptions} {d : ConvSizes}

theorem ConvFits.readsInside {rows cols : ℕ} (h : ConvFits options rows cols d) :
    options.window.ReadsInside rows cols d (resultRows options rows d)
      (resultCols options cols d) where
  row_lt p hp kh hkh :=
    tap_lt h.effective_rows (h.rows_lt.trans (by norm_num)) h.rows_fit hp hkh
  col_lt q hq kw hkw :=
    tap_lt h.effective_cols (h.cols_lt.trans (by norm_num)) h.cols_fit hq hkw

theorem outputExtent_eq {input kernel dilation stride : ℕ} (hkernel : 0 < kernel)
    (hfit : effectiveExtent kernel dilation ≤ input) :
    outputExtent input kernel dilation stride =
      .ok (windowCount input (effectiveExtent kernel dilation) stride) := by
  have hfit' : usizeAdd (usizeMul (kernel - 1) dilation) 1 ≤ input := hfit
  rw [outputExtent, usizeCheckedSub_of_le hkernel]
  show (usizeCheckedSub input (usizeAdd (usizeMul (kernel - 1) dilation) 1)).bind _ = _
  rw [usizeCheckedSub_of_le hfit']
  rfl

variable {R : Type} [CommSemiring R] {input kernel : Value R} {x y : List ℕ → R}
  {elem : ElementType}

/-- What the operation computes at a position of the result. -/
theorem convElement_eq (hfits : ConvFits options d.rows d.cols d) (hgroups : d.groups = 1)
    (hinput : input.ty = ⟨elem, d.image⟩) (hkernel : kernel.ty = ⟨elem, d.kernel⟩)
    (hx : input.Holds x) (hy : kernel.Holds y) {i : List ℕ}
    (hi : InBounds i (resultShape options d)) :
    convElement input kernel (conv2dAttrs options) (some 0) i =
      some (Arrays.conv2d options.window.unpadded d.image d.kernel d.groups x y i) := by
  have hreads := hfits.readsInside
  obtain ⟨b, p, q, group, c, rfl, hb, hp, hq, hgroup, hc⟩ := ConvSizes.exists_position hi
  obtain rfl : group = 0 := by omega
  rw [conv2d_entry_inside hreads hb hp hq hgroup hc, Nat.zero_mul, Nat.zero_add]
  have hshape : kernel.ty.shape.take 3 = [d.kernelRows, d.kernelCols, d.inChannels] := by
    rw [hkernel]
    rfl
  have hterm : ∀ k ∈ positions [d.kernelRows, d.kernelCols, d.inChannels], ∀ acc : R,
      (do
        let u ← (input.cell ((conv2dAttrs options).readPosition [b, p, q, c] k)).value?
        let v ← (kernel.cell (k ++ [[b, p, q, c].getD 3 0])).value?
        return namedContractionBody [u, v] (← some acc)) =
      some (acc + x [b, p * options.stride.1 + k.getD 0 0 * options.dilation.1,
        q * options.stride.2 + k.getD 1 0 * options.dilation.2, k.getD 2 0] * y (k ++ [c])) := by
    intro k hk acc
    have hk := mem_positions.mp hk
    obtain ⟨kh, kw, ic, rfl⟩ := List.length_eq_three.mp hk.length_eq
    obtain ⟨hkh, hkw, hic⟩ : kh < d.kernelRows ∧ kw < d.kernelCols ∧ ic < d.inChannels := by
      simpa using hk
    have hrow : p * options.stride.1 + kh * options.dilation.1 < d.rows :=
      hreads.row_lt p hp kh hkh
    have hcol : q * options.stride.2 + kw * options.dilation.2 < d.cols :=
      hreads.col_lt q hq kw hkw
    have hposition := readPosition_conv2dAttrs b c ic (hrow.trans hfits.rows_lt)
      (hcol.trans hfits.cols_lt)
    have hchannel : ∀ {size c : ℕ}, c < size → c < d.groups * size := by
      intro size c hc
      rwa [hgroups, Nat.one_mul]
    have hread : InBounds [b, p * options.stride.1 + kh * options.dilation.1,
        q * options.stride.2 + kw * options.dilation.2, ic] input.ty.shape := by
      rw [hinput]
      exact inBounds_four.mpr ⟨hb, hrow, hcol, hchannel hic⟩
    have hread' : InBounds [kh, kw, ic, c] kernel.ty.shape := by
      rw [hkernel]
      exact inBounds_four.mpr ⟨hkh, hkw, hic, hchannel hc⟩
    have hu : (input.cell ((conv2dAttrs options).readPosition [b, p, q, c] [kh, kw, ic])).value? =
        some (x [b, p * options.stride.1 + kh * options.dilation.1,
          q * options.stride.2 + kw * options.dilation.2, ic]) := by
      rw [hposition, hx _ hread]
      rfl
    have hv : (kernel.cell [kh, kw, ic, c]).value? = some (y [kh, kw, ic, c]) := by
      rw [hy _ hread']
      rfl
    show (Option.bind _ fun u => Option.bind (kernel.cell [kh, kw, ic, c]).value? _) = _
    rw [hu, hv]
    exact congrArg some (add_comm _ _)
  unfold convElement
  rw [hshape]
  refine (foldl_some_eq hterm 0).trans ?_
  rw [foldl_add_eq, zero_add, ← List.sum_toFinset _ (nodup_positions _)]
  refine congrArg some ((sum_box_three d.kernelRows d.kernelCols d.inChannels _).trans ?_)
  simp only [Nat.zero_mul, Nat.zero_add]
  rfl

theorem dimsFit_resultShape (hfits : ConvFits options d.rows d.cols d)
    (himage : DimsFit d.image) (hkernel : DimsFit d.kernel) :
    DimsFit (resultShape options d) := by
  have hcount : ∀ {padded steps dilation stride : ℕ}, padded < 2 ^ 63 →
      steps * dilation + 1 < 2 ^ 64 →
      effectiveExtent (steps + 1) dilation ≤ padded →
        windowCount padded (effectiveExtent (steps + 1) dilation) stride < 2 ^ 63 := by
    intro padded steps dilation stride hpadded heffective hle
    have hpos : 0 < effectiveExtent (steps + 1) dilation := by
      rw [effectiveExtent_of_lt (by rwa [Nat.add_sub_cancel])]
      exact Nat.succ_pos _
    exact lt_of_le_of_lt (windowCount_le hpos hle (hpadded.trans (by norm_num))).2 hpadded
  obtain ⟨hrows, hcols, hrows', hcols', ⟨hkr, hkc⟩, hle, hle'⟩ := hfits
  obtain ⟨kr, hkr⟩ := Nat.exists_eq_add_one_of_ne_zero hkr.ne'
  obtain ⟨kc, hkc⟩ := Nat.exists_eq_add_one_of_ne_zero hkc.ne'
  unfold resultShape resultRows resultCols
  rw [hkr, Nat.add_sub_cancel] at hrows'
  rw [hkc, Nat.add_sub_cancel] at hcols'
  rw [hkr] at hle ⊢
  rw [hkc] at hle' ⊢
  have hbatch : d.batch < 2 ^ 63 := himage.getD_lt 0
  have hout : d.groups * d.outChannels < 2 ^ 63 := hkernel.getD_lt 3
  unfold DimsFit ConvSizes.output
  simp only [List.forall_mem_cons, List.not_mem_nil, false_imp_iff, implies_true, and_true]
  exact ⟨hbatch, hcount hrows hrows' hle, hcount hcols hcols' hle', hout⟩

/-- **The path of one group** computes the convolution without padding. -/
theorem conv2dDirect_lowers (hfits : ConvFits options d.rows d.cols d) (hgroups : d.groups = 1)
    (hinput : input.ty = ⟨elem, d.image⟩) (hkernel : kernel.ty = ⟨elem, d.kernel⟩)
    (hx : input.Holds x) (hy : kernel.Holds y) :
    Lowers (conv2dDirect input kernel options) ⟨elem, resultShape options d⟩
      (Arrays.conv2d options.window.unpadded d.image d.kernel d.groups x y) := by
  have hresult : DimsFit (resultShape options d) := dimsFit_resultShape hfits
    (by simpa only [hinput] using input.dims_fit) (by simpa only [hkernel] using kernel.dims_fit)
  obtain ⟨init, hnew, hkind, hinit, hzero⟩ :=
    @exists_zeroInitializedTensor R _ ⟨elem, resultShape options d⟩ hresult
  have hreads := hfits.readsInside
  have hinputKind : input.kind = .tensor :=
    Value.kind_eq_tensor_of_rank (show 0 < input.ty.rank by rw [hinput]; exact Nat.succ_pos 3)
  have hkernelKind : kernel.kind = .tensor :=
    Value.kind_eq_tensor_of_rank (show 0 < kernel.ty.rank by rw [hkernel]; exact Nat.succ_pos 3)
  have htypes : input.ty.elem = elem ∧ kernel.ty.elem = elem ∧ input.ty.rank = 4 ∧
      kernel.ty.rank = 4 ∧ (⟨elem, resultShape options d⟩ : TensorType).rank = 4 ∧
      (⟨elem, resultShape options d⟩ : TensorType).dim 0 = input.ty.dim 0 ∧
      input.ty.dim 3 = kernel.ty.dim 2 ∧
      (⟨elem, resultShape options d⟩ : TensorType).dim 3 = kernel.ty.dim 3 := by
    rw [hinput, hkernel]
    refine ⟨rfl, rfl, rfl, rfl, rfl, rfl, ?_, rfl⟩
    show d.groups * d.inChannels = d.inChannels
    rw [hgroups, Nat.one_mul]
  have htaps : TapsFit (input.ty.dim 1) (resultRows options d.rows d) (kernel.ty.dim 0)
        (conv2dAttrs options).strides.1 (conv2dAttrs options).dilations.1 ∧
      TapsFit (input.ty.dim 2) (resultCols options d.cols d) (kernel.ty.dim 1)
        (conv2dAttrs options).strides.2 (conv2dAttrs options).dilations.2 := by
    rw [conv2dAttrs_eq, hinput, hkernel]
    exact ⟨tapsFit_i64 hfits.rows_lt hreads.row_lt, tapsFit_i64 hfits.cols_lt hreads.col_lt⟩
  refine ⟨.tensor ⟨elem, resultShape options d⟩ (fun i =>
    match convElement input kernel (conv2dAttrs options) (init.cell i).value? i with
    | some x => .written x
    | none => .unwritten) hresult, ?_, rfl, fun i hi => ?_⟩
  · have hrows := @outputExtent_eq d.rows d.kernelRows options.dilation.1 options.stride.1
      hfits.kernel_pos.1 hfits.rows_fit
    have hcols := @outputExtent_eq d.cols d.kernelCols options.dilation.2 options.stride.2
      hfits.kernel_pos.2 hfits.cols_fit
    simp only [conv2dDirect, except_bind_eq_ok_iff]
    have hty : (⟨input.ty.elem, [input.ty.dim 0, resultRows options d.rows d,
        resultCols options d.cols d, kernel.ty.dim 3]⟩ : TensorType) =
          ⟨elem, resultShape options d⟩ := by
      rw [hinput, hkernel]
      rfl
    refine ⟨resultRows options d.rows d, ?_, resultCols options d.cols d, ?_, init, ?_, ?_⟩
    · rw [hinput, hkernel]
      exact hrows
    · rw [hinput, hkernel]
      exact hcols
    · rw [hty]
      exact hnew
    · rw [hty]
      simp only [appendLinalgConv2dNhwcHwcf, except_bind_eq_ok_iff, verify_eq_ok_iff,
        exists_const]
      exact ⟨⟨hinputKind, hkernelKind, hkind, hinit⟩, htypes, htaps, resultTensor_of _⟩
  · have hi : InBounds i (resultShape options d) := hi
    have helement := convElement_eq hfits hgroups hinput hkernel hx hy hi
    have hstart : (init.cell i).value? = some 0 := by
      rw [hzero i (by rw [hinit]; exact hi)]
      rfl
    rw [Value.tensor_cell, hstart, helement]

end Direct

/-! ## Groups -/

/-- Operands whose sizes fit, and what they hold. -/
structure ConvOperands {R : Type} (options : Conv2dOptions) (elem : ElementType) (d : ConvSizes)
    (input kernel : Value R) (x y : List ℕ → R) : Prop where
  fits : ConvFits options d.rows d.cols d
  groups : options.groups = d.groups
  image_fits : DimsFit d.image
  kernel_fits : DimsFit d.kernel
  input_ty : input.ty = ⟨elem, d.image⟩
  kernel_ty : kernel.ty = ⟨elem, d.kernel⟩
  input_holds : input.Holds x
  kernel_holds : kernel.Holds y

section Groups

variable {R : Type} [CommSemiring R] {options : Conv2dOptions} {d : ConvSizes}
  {input kernel : Value R} {x y : List ℕ → R} {elem : ElementType}

theorem block_le {groups group : ℕ} (hgroup : group < groups) (size : ℕ) :
    group * size + size ≤ groups * size :=
  calc group * size + size = (group + 1) * size := (Nat.succ_mul _ _).symm
    _ ≤ groups * size := Nat.mul_le_mul_right _ hgroup

/-- **The result of one group** is the group's channels of the whole convolution. -/
theorem groupOutput_lowers (h : ConvOperands options elem d input kernel x y) {group : ℕ}
    (hgroup : group < d.groups) :
    Lowers (groupOutput input kernel options group)
      ⟨elem, (resultShape options d).set 3 d.outChannels⟩ fun i =>
        Arrays.conv2d options.window.unpadded d.image d.kernel d.groups x y
          (i.set 3 (group * d.outChannels + i.getD 3 0)) := by
  have hinputKind : input.kind = .tensor := Value.kind_eq_tensor_of_rank
    (show 0 < input.ty.rank by rw [h.input_ty]; exact Nat.succ_pos 3)
  have hkernelKind : kernel.kind = .tensor := Value.kind_eq_tensor_of_rank
    (show 0 < kernel.ty.rank by rw [h.kernel_ty]; exact Nat.succ_pos 3)
  have hin := block_le hgroup d.inChannels
  have hout := block_le hgroup d.outChannels
  have hinDim : d.groups * d.inChannels < 2 ^ 63 := h.image_fits.getD_lt 3
  have houtDim : d.groups * d.outChannels < 2 ^ 63 := h.kernel_fits.getD_lt 3
  -- the two slices
  obtain ⟨inputSlice, hinputSlice, hinputTy, hinputHolds⟩ :=
    slice_lowers h.input_ty hinputKind h.input_holds h.image_fits
      (@windowFits_axisOffsets d.image 3 (group * d.inChannels) d.inChannels (Nat.lt_succ_self 3)
        hin)
  obtain ⟨kernelSlice, hkernelSlice, hkernelTy, hkernelHolds⟩ :=
    slice_lowers h.kernel_ty hkernelKind h.kernel_holds h.kernel_fits
      (@windowFits_axisOffsets d.kernel 3 (group * d.outChannels) d.outChannels
        (Nat.lt_succ_self 3) hout)
  -- the convolution of the slices
  have hsingle : ConvFits options d.single.rows d.single.cols d.single :=
    ⟨h.fits.rows_lt, h.fits.cols_lt, h.fits.effective_rows, h.fits.effective_cols,
      h.fits.kernel_pos, h.fits.rows_fit, h.fits.cols_fit⟩
  have hdirect := conv2dDirect_lowers hsingle rfl (by rw [hinputTy, d.single_image])
    (by rw [hkernelTy, d.single_kernel]) hinputHolds hkernelHolds
  have hcode : groupOutput input kernel options group =
      conv2dDirect inputSlice kernelSlice options := by
    have hinDiv : input.ty.dim 3 / options.groups = d.inChannels := by
      rw [h.input_ty, h.groups]
      exact d.inChannels_eq_div
    have houtDiv : kernel.ty.dim 3 / options.groups = d.outChannels := by
      rw [h.kernel_ty, h.groups]
      exact d.outChannels_eq_div
    have hinStart : usizeMul group d.inChannels = group * d.inChannels :=
      usizeMul_of_lt (by omega)
    have houtStart : usizeMul group d.outChannels = group * d.outChannels :=
      usizeMul_of_lt (by omega)
    unfold groupOutput
    simp only [hinDiv, houtDiv, hinStart, houtStart]
    rw [h.input_ty, h.kernel_ty]
    show (slice input ⟨elem, d.image.set 3 d.inChannels⟩
      (axisOffsets d.image.length 3 (group * d.inChannels))).bind _ = _
    rw [hinputSlice]
    show (slice kernel ⟨elem, d.kernel.set 3 d.outChannels⟩
      (axisOffsets d.kernel.length 3 (group * d.outChannels))).bind _ = _
    rw [hkernelSlice]
    rfl
  have hshape : resultShape options d.single = (resultShape options d).set 3 d.outChannels := by
    show [d.batch, _, _, 1 * d.outChannels] = _
    rw [Nat.one_mul]
    rfl
  rw [hcode, ← hshape]
  refine hdirect.congr fun i hi => ?_
  obtain ⟨b, p, q, group', c, rfl, hb, hp, hq, hgroup', hc⟩ := ConvSizes.exists_position hi
  obtain rfl : group' = 0 := Nat.lt_one_iff.mp hgroup'
  rw [Nat.zero_mul, Nat.zero_add]
  exact conv2d_single h.fits.readsInside hb hp hq hgroup hc

/-- What the loop has accumulated after some groups. -/
def Accumulated (elem : ElementType) (shape : List ℕ) (channels : ℕ) (y : List ℕ → R) (group : ℕ) :
    Option (Value R) → Prop
  | some value => 0 < group ∧ IsPiece elem shape 3 value (group * channels, y)
  | none => group = 0

/-- **The loop invariant**: one round adds the channels of its group. -/
theorem groupedStep_lowers (h : ConvOperands options elem d input kernel x y) {group : ℕ}
    (hgroup : group < d.groups) {acc : Option (Value R)}
    (hacc : Accumulated elem (resultShape options d) d.outChannels
      (Arrays.conv2d options.window.unpadded d.image d.kernel d.groups x y) group acc) :
    ∃ next, groupedStep input kernel options acc group = .ok next ∧
      Accumulated elem (resultShape options d) d.outChannels
        (Arrays.conv2d options.window.unpadded d.image d.kernel d.groups x y) (group + 1) next := by
  obtain ⟨value, hvalue, hvalueTy, hholds⟩ := groupOutput_lowers h hgroup
  rw [Accumulated.eq_def] at hacc
  cases acc with
  | none =>
      obtain rfl : group = 0 := hacc
      have hone : (0 + 1) * d.outChannels = d.outChannels := by rw [Nat.zero_add, Nat.one_mul]
      refine ⟨some value, ?_, Nat.succ_pos _, ?_⟩
      · rw [groupedStep, hvalue]
        rfl
      · rw [hone]
        refine ⟨hvalueTy, fun i hi => ?_⟩
        rw [hholds i hi]
        simp only [Nat.zero_mul, Nat.zero_add, set_getD_self]
  | some previous =>
      obtain ⟨-, hpiece⟩ := hacc
      have hsum : group * d.outChannels + d.outChannels = (group + 1) * d.outChannels :=
        (Nat.succ_mul _ _).symm
      have hout : d.groups * d.outChannels < 2 ^ 63 := h.kernel_fits.getD_lt 3
      have hdims : DimsFit
          ((resultShape options d).set 3 (group * d.outChannels + d.outChannels)) :=
        (dimsFit_resultShape h.fits h.image_fits h.kernel_fits).set 3 (lt_of_le_of_lt (block_le hgroup _) hout)
      have hrhs : IsPiece elem (resultShape options d) 3 value (d.outChannels, fun i =>
          Arrays.conv2d options.window.unpadded d.image d.kernel d.groups x y
            (i.set 3 (group * d.outChannels + i.getD 3 0))) := ⟨hvalueTy, hholds⟩
      obtain ⟨next, hnext, hnextTy, hnextHolds⟩ :=
        concat_lowers (Nat.lt_succ_self 3) hpiece hrhs hdims
      refine ⟨some next, ?_, Nat.succ_pos _, ?_⟩
      · rw [groupedStep, hvalue]
        show (concat previous value 3).bind _ = _
        rw [hnext]
        rfl
      · rw [← hsum]
        refine ⟨hnextTy, fun i hi => ?_⟩
        have hlen : 3 < i.length := by
          rw [hi.length_eq, hnextTy, List.length_set]
          exact Nat.lt_succ_self 3
        rw [hnextHolds i hi]
        refine congrArg Cell.written (ite_eq_left_iff.mpr fun hnot => ?_)
        rw [getD_set_of_lt hlen, if_pos rfl, List.set_set, Nat.add_sub_cancel' (Nat.not_lt.mp hnot),
          set_getD_self]

/-- The loop over the groups. -/
theorem exists_foldlM_groupedStep (h : ConvOperands options elem d input kernel x y) :
    ∀ {group : ℕ}, group ≤ d.groups → ∃ acc,
      (List.range group).foldlM (groupedStep input kernel options) none = .ok acc ∧
        Accumulated elem (resultShape options d) d.outChannels
          (Arrays.conv2d options.window.unpadded d.image d.kernel d.groups x y) group acc := by
  intro group
  induction group with
  | zero => exact fun _ => ⟨none, rfl, rfl⟩
  | succ group ih =>
      intro hle
      obtain ⟨acc, hacc, haccumulated⟩ := ih (by omega)
      obtain ⟨next, hnext, hresult⟩ := groupedStep_lowers h (by omega) haccumulated
      refine ⟨next, ?_, hresult⟩
      rw [List.range_succ, List.foldlM_append, hacc]
      show (groupedStep input kernel options acc group).bind _ = _
      rw [hnext]
      rfl

/-- **The path of several groups** computes the convolution without padding. -/
theorem groupedConv2d_lowers (h : ConvOperands options elem d input kernel x y) :
    Lowers (groupedConv2d input kernel options) ⟨elem, resultShape options d⟩
      (Arrays.conv2d options.window.unpadded d.image d.kernel d.groups x y) := by
  obtain ⟨acc, hacc, haccumulated⟩ := exists_foldlM_groupedStep h le_rfl
  unfold groupedConv2d
  rw [h.groups, hacc]
  rw [Accumulated.eq_def] at haccumulated
  cases acc with
  | none => exact absurd haccumulated d.groups_pos.ne'
  | some value =>
      obtain ⟨-, hty, hholds⟩ := haccumulated
      have hshape : (resultShape options d).set 3 (d.groups * d.outChannels) =
          resultShape options d := rfl
      exact ⟨value, rfl, hty.trans (by rw [hshape]), hholds⟩

end Groups

/-! ## Padding and both paths -/

/-- The shape of a padded image. -/
def paddedShape (options : Conv2dOptions) (shape : List ℕ) : List ℕ :=
  [shape.getD 0 0, shape.getD 1 0 + options.padding.top + options.padding.bottom,
    shape.getD 2 0 + options.padding.left + options.padding.right, shape.getD 3 0]

/-- The sizes that a lowering handles: dimensions fit signed 64-bit attributes,
and the extents of the dilated kernel are words. -/
structure ConvTypesFit (options : Conv2dOptions) (inputTy kernelTy : TensorType) : Prop where
  padded_fits : DimsFit (paddedShape options inputTy.shape)
  kernel_fits : DimsFit kernelTy.shape
  effective_rows : (kernelTy.dim 0 - 1) * options.dilation.1 + 1 < 2 ^ 64
  effective_cols : (kernelTy.dim 1 - 1) * options.dilation.2 + 1 < 2 ^ 64

section Paths

variable {R : Type} [CommSemiring R] {options : Conv2dOptions} {d : ConvSizes}
  {input kernel : Value R} {x y : List ℕ → R} {elem : ElementType}

theorem padConv2dInput_lowers (hty : input.ty = ⟨elem, d.image⟩) (hx : input.Holds x)
    (hdims : DimsFit (paddedShape options d.image)) :
    Lowers (padConv2dInput input options) ⟨elem, paddedShape options d.image⟩
      (options.window.padded d.image x) := by
  have hrows : d.rows + options.padding.top + options.padding.bottom < 2 ^ 63 := hdims.getD_lt 1
  have hcols : d.cols + options.padding.left + options.padding.right < 2 ^ 63 := hdims.getD_lt 2
  have hkind : input.kind = .tensor := Value.kind_eq_tensor_of_rank
    (show 0 < input.ty.rank by rw [hty]; exact Nat.succ_pos 3)
  unfold padConv2dInput
  dsimp only
  split_ifs with hnone
  · obtain ⟨htop, hbottom, hleft, hright⟩ := hnone
    have hshape : paddedShape options d.image = d.image := by
      unfold paddedShape
      rw [htop, hbottom, hleft, hright]
      rfl
    have hwindow : options.window = options.window.unpadded := by
      unfold Conv2dOptions.window Window.unpadded
      rw [htop, hleft]
    rw [hshape]
    refine hty ▸ (lowers_ok hx).congr fun i hi => ?_
    rw [hty] at hi
    rw [hwindow]
    exact (options.window.padded_unpadded hi rfl x).symm
  · have hcode : (⟨input.ty.elem, [input.ty.dim 0,
        paddedExtent (input.ty.dim 1) options.padding.top options.padding.bottom,
        paddedExtent (input.ty.dim 2) options.padding.left options.padding.right,
        input.ty.dim 3]⟩ : TensorType) = ⟨elem, paddedShape options d.image⟩ := by
      have hrows' : paddedExtent (input.ty.dim 1) options.padding.top options.padding.bottom =
          d.rows + options.padding.top + options.padding.bottom := by
        rw [hty]
        exact paddedExtent_of_lt (hrows.trans (by norm_num))
      have hcols' : paddedExtent (input.ty.dim 2) options.padding.left options.padding.right =
          d.cols + options.padding.left + options.padding.right := by
        rw [hty]
        exact paddedExtent_of_lt (hcols.trans (by norm_num))
      rw [hrows', hcols', hty]
      rfl
    rw [hcode, show input.ty.elem = elem by rw [hty]]
    refine appendTensorPad_lowers hty hkind hx ?_ ?_ rfl rfl hdims ?_
    · simp only [DimsFit, List.forall_mem_cons, List.not_mem_nil, false_imp_iff, implies_true,
        and_true]
      exact ⟨by norm_num, by omega, by omega, by norm_num⟩
    · simp only [DimsFit, List.forall_mem_cons, List.not_mem_nil, false_imp_iff, implies_true,
        and_true]
      exact ⟨by norm_num, by omega, by omega, by norm_num⟩
    · show [d.batch, d.rows + options.padding.top + options.padding.bottom,
        d.cols + options.padding.left + options.padding.right, d.groups * d.inChannels] = _
      simp only [ConvSizes.image, shiftBy, List.zipWith_cons_cons, List.zipWith_nil_left,
        Nat.zero_add, Nat.add_zero, Nat.add_comm options.padding.top,
        Nat.add_comm options.padding.left]

/-- **The lowering of `conv2d` computes the convolution**, on the path of one
group and on the path of several, with the inferred type; no subtraction wraps,
and every position that is read lies in the padded image. -/
theorem conv2d_lowers (input kernel : Value R) (x y : List ℕ → R) (options : Conv2dOptions)
    (ty : TensorType)
    (hok : inferCallResults (.conv2d options) [input.ty, kernel.ty] = .ok [ty])
    (hfits : ConvTypesFit options input.ty kernel.ty) (hx : input.Holds x) (hy : kernel.Holds y) :
    Lowers (conv2d input kernel options) ty
        (Arrays.conv2d options.window input.ty.shape kernel.ty.shape options.groups x y) ∧
      ∀ i k, InBounds i ty.shape → InBounds k (kernel.ty.shape.take 3) →
        InBounds (options.window.paddedPosition (kernel.ty.dim 2)
          (kernel.ty.dim 3 / options.groups) i k) (paddedShape options input.ty.shape) := by
  obtain ⟨elem, d, h⟩ := Conv2dTypes.of_inferCallResults hok
  obtain ⟨hpadded, hkernelFits, heffRows, heffCols⟩ := hfits
  rw [h.input_ty] at hpadded ⊢
  rw [h.kernel_ty] at hkernelFits heffRows heffCols ⊢
  have hrows : d.rows + options.padding.top + options.padding.bottom < 2 ^ 63 :=
    hpadded.getD_lt 1
  have hcols : d.cols + options.padding.left + options.padding.right < 2 ^ 63 :=
    hpadded.getD_lt 2
  have hrowsFit := h.rows_fit
  have hcolsFit := h.cols_fit
  have hresult := h.ty_eq
  rw [paddedExtent_of_lt (hrows.trans (by norm_num))] at hrowsFit hresult
  rw [paddedExtent_of_lt (hcols.trans (by norm_num))] at hcolsFit hresult
  generalize hR : d.rows + options.padding.top + options.padding.bottom = rows at *
  generalize hC : d.cols + options.padding.left + options.padding.right = cols at *
  have hfits : ConvFits options rows cols d :=
    ⟨hrows, hcols, heffRows, heffCols, h.kernel_pos, hrowsFit, hcolsFit⟩
  have hreads := hfits.readsInside
  have himage : paddedShape options d.image = (d.withImage rows cols).image := by
    rw [← hR, ← hC]
    rfl
  have hshape : ty = ⟨elem, resultShape options (d.withImage rows cols)⟩ := hresult
  obtain ⟨padded, hpad, hpadTy, hpadHolds⟩ := padConv2dInput_lowers h.input_ty hx hpadded
  rw [himage] at hpadTy hpadded ⊢
  have hoperands : ConvOperands options elem (d.withImage rows cols) padded kernel
      (options.window.padded d.image x) y :=
    ⟨⟨hrows, hcols, heffRows, heffCols, h.kernel_pos, hrowsFit, hcolsFit⟩, h.groups, hpadded,
      hkernelFits, hpadTy, h.kernel_ty, hpadHolds, hy⟩
  refine ⟨?_, fun i k hi hk => ?_⟩
  · have hpath : Lowers (conv2d input kernel options) ty
        (Arrays.conv2d options.window.unpadded (d.withImage rows cols).image d.kernel d.groups
          (options.window.padded d.image x) y) := by
      unfold conv2d
      rw [hpad, hshape]
      simp only [bind, Except.bind]
      split_ifs with hgroups
      · exact groupedConv2d_lowers hoperands
      · have hone : d.groups = 1 := by
          have := d.groups_pos
          rw [h.groups] at hgroups
          omega
        exact conv2dDirect_lowers hoperands.fits hone hpadTy h.kernel_ty hpadHolds hy
    rw [h.groups]
    refine hpath.congr fun i hi => ?_
    rw [hshape] at hi
    exact conv2d_withImage hreads hi
  · rw [hshape] at hi
    have hi : InBounds i (d.output (resultRows options rows d) (resultCols options cols d)) := hi
    obtain ⟨b, p, q, group, c, rfl, hb, hp, hq, hgroup, hc⟩ := ConvSizes.exists_position hi
    obtain ⟨kh, kw, ic, rfl⟩ := List.length_eq_three.mp hk.length_eq
    obtain ⟨hkh, hkw, hic⟩ : kh < d.kernelRows ∧ kw < d.kernelCols ∧ ic < d.inChannels := by
      simpa [ConvSizes.kernel] using hk
    have hdiv : (⟨elem, d.kernel⟩ : TensorType).dim 3 / options.groups = d.outChannels := by
      rw [h.groups]
      exact d.outChannels_eq_div
    have hgroupDiv : [b, p, q, group * d.outChannels + c].getD 3 0 / d.outChannels = group :=
      d.channel_div hc group
    unfold Window.paddedPosition
    rw [hdiv, hgroupDiv]
    exact inBounds_four.mpr ⟨hb, hreads.row_lt p hp kh hkh, hreads.col_lt q hq kw hkw,
      d.channel_lt hgroup hic⟩

/-- Two groups of one channel, a dilated kernel over a padded image. -/
def groupedOptions : Conv2dOptions := ⟨⟨1, 0, 0, 1⟩, (2, 1), (1, 2), 2⟩

theorem conv2d_lowers_grouped :
    Lowers (conv2d (.tensor ⟨.i64, [1, 3, 2, 2]⟩ fun i => .written (i.getD 1 0 : ℤ))
        (.tensor ⟨.i64, [2, 2, 1, 4]⟩ fun i => .written (i.getD 3 0 : ℤ)) groupedOptions)
      ⟨.i64, [1, 2, 1, 4]⟩
      (Arrays.conv2d groupedOptions.window [1, 3, 2, 2] [2, 2, 1, 4] 2
        (fun i => (i.getD 1 0 : ℤ)) fun i => (i.getD 3 0 : ℤ)) :=
  (conv2d_lowers (.tensor ⟨.i64, [1, 3, 2, 2]⟩ fun i => .written (i.getD 1 0 : ℤ))
    (.tensor ⟨.i64, [2, 2, 1, 4]⟩ fun i => .written (i.getD 3 0 : ℤ)) _ _ groupedOptions
    ⟨.i64, [1, 2, 1, 4]⟩ rfl ⟨by decide, by decide, by decide, by decide⟩ (fun _ _ => rfl)
    fun _ _ => rfl).1

/-- Padding that the type rule accepts and no attribute holds. -/
def widePadding : Conv2dOptions := ⟨⟨2 ^ 63, 0, 0, 0⟩, (1, 1), (1, 1), 1⟩

theorem not_lowers_conv2d_wide :
    inferCallResults (.conv2d widePadding) [⟨.f32, [1, 1, 1, 1]⟩, ⟨.f32, [1, 1, 1, 1]⟩] =
        .ok [⟨.f32, [1, 2 ^ 63 + 1, 1, 1]⟩] ∧
      ∀ (input kernel : Value ℤ) (y : List ℕ → ℤ), input.ty = ⟨.f32, [1, 1, 1, 1]⟩ →
        ¬ Lowers (conv2d input kernel widePadding) ⟨.f32, [1, 2 ^ 63 + 1, 1, 1]⟩ y := by
  refine ⟨by decide, ?_⟩
  rintro input kernel y - ⟨value, hvalue, -, -⟩
  simp only [conv2d, except_bind_eq_ok_iff] at hvalue
  obtain ⟨padded, hpadded, -⟩ := hvalue
  rw [padConv2dInput, if_neg (by simp [widePadding])] at hpadded
  simp only [appendTensorPad, except_bind_eq_ok_iff, denseI64Attr_eq_ok_iff] at hpadded
  obtain ⟨-, hlows, -⟩ := hpadded
  exact absurd (hlows (2 ^ 63) (List.mem_cons_of_mem _ List.mem_cons_self)) (lt_irrefl _)

end Paths

end Knok.Lowering
