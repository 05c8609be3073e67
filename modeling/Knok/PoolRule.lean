import Mathlib
import Knok.ConvRule
import Knok.Arrays.Pooling

/-!
# The type rules of pooling

`max_pool2d` and `avg_pool2d` share one rule: an image whose batch and channels are
not empty, a window that is not empty, and a dilated window that fits into the
padded image.  The window is that of a convolution with the same padding, strides
and dilations.
-/

namespace Knok

open Arrays Control

/-- The convolution with the same windows. -/
def Pool2dOptions.asConv (options : Pool2dOptions) : Conv2dOptions :=
  ⟨options.padding, options.stride, options.dilation, 1⟩

/-- The window of a pooling. -/
def Pool2dOptions.window (options : Pool2dOptions) : Window := options.asConv.window

/-- The shape of a window. -/
def Pool2dOptions.kernelShape (options : Pool2dOptions) : List ℕ :=
  [options.kernel.1, options.kernel.2]

/-- The sizes of an image. -/
structure ImageSizes where
  batch : ℕ
  rows : ℕ
  cols : ℕ
  channels : ℕ

namespace ImageSizes

variable (d : ImageSizes)

/-- The shape of the image. -/
def image : List ℕ := [d.batch, d.rows, d.cols, d.channels]

/-- The shape of a result with so many rows and columns. -/
def output (outRows outCols : ℕ) : List ℕ := [d.batch, outRows, outCols, d.channels]

/-- A position of the result. -/
theorem exists_position {outRows outCols : ℕ} {i : List ℕ}
    (hi : InBounds i (d.output outRows outCols)) :
    ∃ b p q c, i = [b, p, q, c] ∧ b < d.batch ∧ p < outRows ∧ q < outCols ∧ c < d.channels := by
  obtain ⟨b, p, q, c, rfl⟩ := List.length_eq_four.mp hi.length_eq
  obtain ⟨hb, hp, hq, hc⟩ := inBounds_four.mp hi
  exact ⟨b, p, q, c, rfl, hb, hp, hq, hc⟩

end ImageSizes

/-- The sizes of an operand of rank four. -/
def TensorType.imageSizes (ty : TensorType) : ImageSizes :=
  ⟨ty.dim 0, ty.dim 1, ty.dim 2, ty.dim 3⟩

/-- What an accepted operand satisfies. -/
structure Pool2dTypes (inputTy ty : TensorType) (options : Pool2dOptions) (elem : ElementType)
    (d : ImageSizes) : Prop where
  numeric : elem.isNumeric = true
  input_ty : inputTy = ⟨elem, d.image⟩
  kernel_pos : 0 < options.kernel.1 ∧ 0 < options.kernel.2
  stride_pos : 0 < options.stride.1 ∧ 0 < options.stride.2
  dilation_pos : 0 < options.dilation.1 ∧ 0 < options.dilation.2
  batch_pos : 0 < d.batch
  channels_pos : 0 < d.channels
  rows_fit : effectiveExtent options.kernel.1 options.dilation.1 ≤
    paddedExtent d.rows options.padding.top options.padding.bottom
  cols_fit : effectiveExtent options.kernel.2 options.dilation.2 ≤
    paddedExtent d.cols options.padding.left options.padding.right
  ty_eq : ty = ⟨elem, d.output
    (windowCount (paddedExtent d.rows options.padding.top options.padding.bottom)
      (effectiveExtent options.kernel.1 options.dilation.1) options.stride.1)
    (windowCount (paddedExtent d.cols options.padding.left options.padding.right)
      (effectiveExtent options.kernel.2 options.dilation.2) options.stride.2)⟩

/-- **The type rule of pooling.** -/
theorem pool2dResultType_eq_ok_iff {inputTy ty : TensorType} {options : Pool2dOptions}
    {opName : String} :
    pool2dResultType inputTy options opName = .ok ty ↔
      ∃ elem d, Pool2dTypes inputTy ty options elem d := by
  unfold pool2dResultType
  simp only [except_bind_eq_ok_iff, failIf_eq_ok_iff, expectNumericElement, exists_const,
    bne_eq_false_iff_eq, Bool.not_eq_false', Bool.or_eq_false_iff, beq_eq_false_iff_ne,
    decide_eq_false_iff_not, Nat.not_lt, except_pure_eq_ok_iff]
  constructor
  · rintro ⟨hrank, hnumeric, ⟨hkh, hkw⟩, ⟨⟨⟨hsh, hsw⟩, hdh⟩, hdw⟩, ⟨hbatch, hchannels⟩,
      ⟨hrows, hcols⟩, rfl⟩
    obtain ⟨elem, shape⟩ := inputTy
    obtain ⟨n, h, w, c, rfl⟩ := List.length_eq_four.mp hrank
    exact ⟨elem, ⟨n, h, w, c⟩, hnumeric, rfl, ⟨Nat.pos_of_ne_zero hkh, Nat.pos_of_ne_zero hkw⟩,
      ⟨Nat.pos_of_ne_zero hsh, Nat.pos_of_ne_zero hsw⟩,
      ⟨Nat.pos_of_ne_zero hdh, Nat.pos_of_ne_zero hdw⟩, Nat.pos_of_ne_zero hbatch,
      Nat.pos_of_ne_zero hchannels, hrows, hcols, rfl⟩
  · rintro ⟨elem, d, h⟩
    obtain ⟨hnumeric, rfl, ⟨hkh, hkw⟩, ⟨hsh, hsw⟩, ⟨hdh, hdw⟩, hbatch, hchannels, hrows, hcols,
      rfl⟩ := h
    exact ⟨rfl, hnumeric, ⟨hkh.ne', hkw.ne'⟩, ⟨⟨⟨hsh.ne', hsw.ne'⟩, hdh.ne'⟩, hdw.ne'⟩,
      ⟨hbatch.ne', hchannels.ne'⟩, ⟨hrows, hcols⟩, rfl⟩

namespace Pool2dTypes

variable {inputTy ty : TensorType} {options : Pool2dOptions} {elem : ElementType} {d : ImageSizes}

/-- The sizes are those of an inferred type. -/
theorem of_maxPool2d (hok : inferCallResults (.maxPool2d options) [inputTy] = .ok [ty]) :
    ∃ elem d, Pool2dTypes inputTy ty options elem d := by
  simp only [inferCallResults, except_bind_eq_ok_iff, expectUnary_eq_ok_iff,
    except_pure_eq_ok_iff] at hok
  obtain ⟨input, htys, ty', hty', hsingle⟩ := hok
  obtain rfl := List.singleton_inj.mp htys
  rw [List.singleton_inj.mp hsingle] at hty'
  exact pool2dResultType_eq_ok_iff.mp hty'

/-- Averages are taken of floats. -/
theorem of_avgPool2d (hok : inferCallResults (.avgPool2d options) [inputTy] = .ok [ty]) :
    ∃ elem d, Pool2dTypes inputTy ty options elem d ∧ elem.isFloat = true := by
  simp only [inferCallResults, avgPool2dResultType, except_bind_eq_ok_iff, expectUnary_eq_ok_iff,
    failIf_eq_ok_iff, exists_const, Bool.not_eq_false', except_pure_eq_ok_iff] at hok
  obtain ⟨input, htys, ty', ⟨hfloat, hty'⟩, hsingle⟩ := hok
  obtain rfl := List.singleton_inj.mp htys
  rw [List.singleton_inj.mp hsingle] at hty'
  obtain ⟨elem, d, h⟩ := pool2dResultType_eq_ok_iff.mp hty'
  refine ⟨elem, d, h, ?_⟩
  rw [h.input_ty] at hfloat
  exact hfloat

/-- The dimensions of the result are words when those of the operand are. -/
theorem usizeDims (h : Pool2dTypes inputTy ty options elem d) (hinput : UsizeDims inputTy.shape) :
    UsizeDims ty.shape := by
  rw [h.input_ty] at hinput
  rw [h.ty_eq]
  have hbatch : d.batch < 2 ^ 64 := hinput.getD_lt 0
  have hchannels : d.channels < 2 ^ 64 := hinput.getD_lt 3
  simp only [UsizeDims, ImageSizes.output, List.mem_cons, List.not_mem_nil, or_false]
  rintro dim (rfl | rfl | rfl | rfl)
  · exact hbatch
  · exact Nat.mod_lt _ (Nat.two_pow_pos 64)
  · exact Nat.mod_lt _ (Nat.two_pow_pos 64)
  · exact hchannels

end Pool2dTypes

/-! ## Extents that do not wrap -/

/-- The extents of the padded image and of the dilated window are 64-bit words. -/
structure Pool2dOptions.ExtentsFit (options : Pool2dOptions) (d : ImageSizes) : Prop where
  effective_rows : (options.kernel.1 - 1) * options.dilation.1 + 1 < 2 ^ 64
  effective_cols : (options.kernel.2 - 1) * options.dilation.2 + 1 < 2 ^ 64
  padded_rows : d.rows + options.padding.top + options.padding.bottom < 2 ^ 64
  padded_cols : d.cols + options.padding.left + options.padding.right < 2 ^ 64

section Reads

variable {inputTy ty : TensorType} {options : Pool2dOptions} {elem : ElementType} {d : ImageSizes}

/-- The sizes are read off the operand. -/
theorem Pool2dTypes.imageSizes_eq (h : Pool2dTypes inputTy ty options elem d) :
    inputTy.imageSizes = d := by
  rw [h.input_ty]
  rfl

/-- **Every row and column under a window lies in the padded image.** -/
theorem Pool2dTypes.reads_lt (h : Pool2dTypes inputTy ty options elem d)
    (hfit : options.ExtentsFit d) {p q kh kw : ℕ} (hp : p < ty.dim 1) (hq : q < ty.dim 2)
    (hkh : kh < options.kernel.1) (hkw : kw < options.kernel.2) :
    p * options.stride.1 + kh * options.dilation.1 <
        d.rows + options.padding.top + options.padding.bottom ∧
      q * options.stride.2 + kw * options.dilation.2 <
        d.cols + options.padding.left + options.padding.right := by
  have hrows := paddedExtent_of_lt hfit.padded_rows
  have hcols := paddedExtent_of_lt hfit.padded_cols
  rw [h.ty_eq] at hp hq
  have hrow := tap_lt hfit.effective_rows (hrows.symm ▸ hfit.padded_rows) h.rows_fit hp hkh
  have hcol := tap_lt hfit.effective_cols (hcols.symm ▸ hfit.padded_cols) h.cols_fit hq hkw
  rw [hrows] at hrow
  rw [hcols] at hcol
  exact ⟨hrow, hcol⟩

/-- Every tap of every window lies in the padded image. -/
def PoolReadsInside (options : Pool2dOptions) (inputTy ty : TensorType) : Prop :=
  ∀ p < ty.dim 1, ∀ q < ty.dim 2, ∀ kh < options.kernel.1, ∀ kw < options.kernel.2,
    p * options.stride.1 + kh * options.dilation.1 <
        inputTy.dim 1 + options.padding.top + options.padding.bottom ∧
      q * options.stride.2 + kw * options.dilation.2 <
        inputTy.dim 2 + options.padding.left + options.padding.right

theorem Pool2dTypes.readsInside (h : Pool2dTypes inputTy ty options elem d)
    (hfit : options.ExtentsFit inputTy.imageSizes) : PoolReadsInside options inputTy ty := by
  intro p hp q hq kh hkh kw hkw
  rw [h.imageSizes_eq] at hfit
  rw [h.input_ty]
  exact h.reads_lt hfit hp hq hkh hkw

end Reads

end Knok
