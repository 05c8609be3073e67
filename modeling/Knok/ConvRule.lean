import Mathlib
import Knok.MovementRule
import Knok.Arrays.Convolution

/-!
# The type rule of `conv2d`

What the rule accepts, in terms of the sizes of a grouped convolution: the
channels split evenly into the groups, the kernel has the channels of one group,
and the dilated kernel fits into the padded image, as far as the extents that
the rule computes on 64-bit words say.
-/

namespace Knok

open Arrays Control

/-- The window of a convolution. -/
def Conv2dOptions.window (options : Conv2dOptions) : Window :=
  ⟨options.padding.top, options.padding.left, options.stride.1, options.stride.2,
    options.dilation.1, options.dilation.2⟩

/-- What an accepted pair of operands satisfies. -/
structure Conv2dTypes (inputTy kernelTy ty : TensorType) (options : Conv2dOptions)
    (elem : ElementType) (d : ConvSizes) : Prop where
  numeric : elem.isNumeric = true
  input_ty : inputTy = ⟨elem, d.image⟩
  kernel_ty : kernelTy = ⟨elem, d.kernel⟩
  groups : options.groups = d.groups
  inChannels_pos : 0 < d.inChannels
  kernel_pos : 0 < d.kernelRows ∧ 0 < d.kernelCols
  stride_pos : 0 < options.stride.1 ∧ 0 < options.stride.2
  dilation_pos : 0 < options.dilation.1 ∧ 0 < options.dilation.2
  rows_fit : effectiveExtent d.kernelRows options.dilation.1 ≤
    paddedExtent d.rows options.padding.top options.padding.bottom
  cols_fit : effectiveExtent d.kernelCols options.dilation.2 ≤
    paddedExtent d.cols options.padding.left options.padding.right
  ty_eq : ty = ⟨elem, d.output
    (windowCount (paddedExtent d.rows options.padding.top options.padding.bottom)
      (effectiveExtent d.kernelRows options.dilation.1) options.stride.1)
    (windowCount (paddedExtent d.cols options.padding.left options.padding.right)
      (effectiveExtent d.kernelCols options.dilation.2) options.stride.2)⟩

/-- **The type rule of `conv2d`.** -/
theorem conv2dResultType_eq_ok_iff {inputTy kernelTy ty : TensorType} {options : Conv2dOptions} :
    conv2dResultType inputTy kernelTy options = .ok ty ↔
      ∃ elem d, Conv2dTypes inputTy kernelTy ty options elem d := by
  unfold conv2dResultType
  simp only [except_bind_eq_ok_iff, failIf_eq_ok_iff, expectNumericElement, exists_const,
    bne_eq_false_iff_eq, Bool.not_eq_false', Bool.or_eq_false_iff, beq_eq_false_iff_ne,
    beq_iff_eq, decide_eq_false_iff_not, Nat.not_lt, except_pure_eq_ok_iff]
  constructor
  · rintro ⟨⟨⟨hrank, hrank'⟩, helem⟩, hnumeric, hgroups, ⟨⟨⟨hsh, hsw⟩, hdh⟩, hdw⟩,
      ⟨⟨⟨hkh, hkw⟩, hkc⟩, hkf⟩, -, hin, hout, hchannels, ⟨hrows, hcols⟩, rfl⟩
    obtain ⟨elem, shape⟩ := inputTy
    obtain ⟨elem', shape'⟩ := kernelTy
    obtain rfl : elem = elem' := helem
    obtain ⟨n, h, w, c, rfl⟩ := List.length_eq_four.mp hrank
    obtain ⟨kh, kw, kc, f, rfl⟩ := List.length_eq_four.mp hrank'
    obtain ⟨ic, rfl⟩ := Nat.dvd_of_mod_eq_zero hin
    obtain ⟨oc, rfl⟩ := Nat.dvd_of_mod_eq_zero hout
    have hpos : 0 < options.groups := Nat.pos_of_ne_zero hgroups
    obtain rfl : kc = ic := hchannels.trans (Nat.mul_div_cancel_left ic hpos)
    have hoc : 0 < oc := Nat.pos_of_ne_zero fun hzero => hkf (by rw [hzero]; rfl)
    exact ⟨elem, ⟨n, h, w, kc, kh, kw, oc, options.groups, hoc, hpos⟩, hnumeric, rfl, rfl, rfl,
      Nat.pos_of_ne_zero hkc, ⟨Nat.pos_of_ne_zero hkh, Nat.pos_of_ne_zero hkw⟩,
      ⟨Nat.pos_of_ne_zero hsh, Nat.pos_of_ne_zero hsw⟩,
      ⟨Nat.pos_of_ne_zero hdh, Nat.pos_of_ne_zero hdw⟩, hrows, hcols, rfl⟩
  · rintro ⟨elem, d, h⟩
    obtain ⟨hnumeric, rfl, rfl, hgroups, hic, ⟨hkh, hkw⟩, ⟨hsh, hsw⟩, ⟨hdh, hdw⟩, hrows, hcols,
      rfl⟩ := h
    have hf : d.groups * d.outChannels ≠ 0 :=
      Nat.mul_ne_zero d.groups_pos.ne' d.outChannels_pos.ne'
    have hc : d.groups * d.inChannels ≠ 0 := Nat.mul_ne_zero d.groups_pos.ne' hic.ne'
    rw [hgroups]
    exact ⟨⟨⟨rfl, rfl⟩, rfl⟩, hnumeric, d.groups_pos.ne',
      ⟨⟨⟨hsh.ne', hsw.ne'⟩, hdh.ne'⟩, hdw.ne'⟩, ⟨⟨⟨hkh.ne', hkw.ne'⟩, hic.ne'⟩, hf⟩, ⟨hc, hf⟩,
      Nat.mul_mod_right _ _, Nat.mul_mod_right _ _, d.inChannels_eq_div.symm, ⟨hrows, hcols⟩, rfl⟩

namespace Conv2dTypes

variable {inputTy kernelTy ty : TensorType} {options : Conv2dOptions} {elem : ElementType}
  {d : ConvSizes}

/-- The sizes are those of an inferred type. -/
theorem of_inferCallResults
    (hok : inferCallResults (.conv2d options) [inputTy, kernelTy] = .ok [ty]) :
    ∃ elem d, Conv2dTypes inputTy kernelTy ty options elem d := by
  simp only [inferCallResults, except_bind_eq_ok_iff, expectBinary_eq_ok_iff,
    except_pure_eq_ok_iff] at hok
  obtain ⟨⟨input, kernel⟩, htys, ty', hty', hsingle⟩ := hok
  obtain ⟨rfl, rfl⟩ : inputTy = input ∧ kernelTy = kernel := by simpa using htys
  rw [List.singleton_inj.mp hsingle] at hty'
  exact conv2dResultType_eq_ok_iff.mp hty'

/-- The dimensions of the result are words when those of the operands are. -/
theorem usizeDims (h : Conv2dTypes inputTy kernelTy ty options elem d)
    (hinput : UsizeDims inputTy.shape) (hkernel : UsizeDims kernelTy.shape) :
    UsizeDims ty.shape := by
  rw [h.input_ty] at hinput
  rw [h.kernel_ty] at hkernel
  rw [h.ty_eq]
  have hbatch : d.batch < 2 ^ 64 := hinput.getD_lt 0
  have hchannels : d.groups * d.outChannels < 2 ^ 64 := hkernel.getD_lt 3
  simp only [UsizeDims, ConvSizes.output, List.mem_cons, List.not_mem_nil, or_false]
  rintro dim (rfl | rfl | rfl | rfl)
  · exact hbatch
  · exact Nat.mod_lt _ (Nat.two_pow_pos 64)
  · exact Nat.mod_lt _ (Nat.two_pow_pos 64)
  · exact hchannels

end Conv2dTypes

/-! ## Extents that do not wrap -/

/-- The extents of padded images and dilated kernels are 64-bit words. -/
structure Conv2dOptions.ExtentsFit (options : Conv2dOptions) (d : ConvSizes) : Prop where
  effective_rows : (d.kernelRows - 1) * options.dilation.1 + 1 < 2 ^ 64
  effective_cols : (d.kernelCols - 1) * options.dilation.2 + 1 < 2 ^ 64
  padded_rows : d.rows + options.padding.top + options.padding.bottom < 2 ^ 64
  padded_cols : d.cols + options.padding.left + options.padding.right < 2 ^ 64

theorem effectiveExtent_of_lt {kernel dilation : ℕ} (h : (kernel - 1) * dilation + 1 < 2 ^ 64) :
    effectiveExtent kernel dilation = (kernel - 1) * dilation + 1 := by
  unfold effectiveExtent
  rw [usizeMul_of_lt (by omega), usizeAdd_of_lt h]

theorem paddedExtent_of_lt {input low high : ℕ} (h : input + low + high < 2 ^ 64) :
    paddedExtent input low high = input + low + high := by
  unfold paddedExtent
  rw [usizeAdd_of_lt (by omega : input + low < 2 ^ 64), usizeAdd_of_lt h]

theorem windowCount_le {padded effective stride : ℕ} (hpos : 0 < effective)
    (hle : effective ≤ padded) (hpadded : padded < 2 ^ 64) :
    windowCount padded effective stride = (padded - effective) / stride + 1 ∧
      windowCount padded effective stride ≤ padded := by
  have hdiv : (padded - effective) / stride ≤ padded - effective := Nat.div_le_self _ _
  have hcount : windowCount padded effective stride = (padded - effective) / stride + 1 :=
    usizeAdd_of_lt (by omega)
  exact ⟨hcount, by omega⟩

/-- **Every tap of every window lies in the padded image.** -/
theorem tap_lt {padded kernel dilation stride p k : ℕ}
    (heffective : (kernel - 1) * dilation + 1 < 2 ^ 64) (hpadded : padded < 2 ^ 64)
    (hle : effectiveExtent kernel dilation ≤ padded)
    (hp : p < windowCount padded (effectiveExtent kernel dilation) stride) (hk : k < kernel) :
    p * stride + k * dilation < padded := by
  rw [effectiveExtent_of_lt heffective] at hle hp
  rw [(windowCount_le (Nat.succ_pos _) hle hpadded).1] at hp
  have hp' : p * stride ≤ padded - ((kernel - 1) * dilation + 1) :=
    calc p * stride ≤ (padded - ((kernel - 1) * dilation + 1)) / stride * stride :=
          Nat.mul_le_mul_right _ (Nat.lt_succ_iff.mp hp)
      _ ≤ padded - ((kernel - 1) * dilation + 1) := Nat.div_mul_le_self _ _
  have hk' : k * dilation ≤ (kernel - 1) * dilation := Nat.mul_le_mul_right _ (by omega)
  omega

end Knok
