import Mathlib
import Knok.ConvRule
import Knok.Autograd.Adjoint.Movement

/-!
# Gradients of convolutions

The rule of `conv2d` loops over groups, kernel positions, output positions and
input channels; every round slices the gradient and one operand, multiplies them,
sums and pads.  What it emits are the adjoints of the convolution along the taps
that the rule computes on words (`reverseConv2d_inner`).  They are the adjoints of
the convolution exactly where these taps are those of the window
(`conv2dGradientsAdjoint_iff`).

### Design decisions

* **Taps.**  The two convolutions differ in their taps only, so that the rule is
  evaluated once, and the comparison is about taps.
-/

namespace Knok.Autograd

open Arrays Control

universe u

/-! ## The terms of the loop -/

/-- The taps that the rule computes. -/
def wordTaps (options : Conv2dOptions) (rows cols : ℕ) : Taps := fun p q kh kw =>
  (convInputPosition options p q kh kw).filter fun position =>
    decide (position.1 < rows ∧ position.2 < cols)

/-- The term of one round of the loop. -/
def convTerm (d : ConvSizes) (group kh kw p q ic : ℕ) (position : ℕ × ℕ) : ConvTerm :=
  ⟨group * d.outChannels, group * d.inChannels + ic, ic, kh, kw, p, q, position.1, position.2⟩

section Terms

variable {inputTy kernelTy ty : TensorType} {options : Conv2dOptions} {elem : ElementType}
  {d : ConvSizes} {outRows outCols : ℕ}

theorem convTerms_eq (hgroups : options.groups = d.groups)
    (hin : d.groups * d.inChannels < 2 ^ 64) (hout : d.groups * d.outChannels < 2 ^ 64) :
    convTerms ⟨elem, d.image⟩ ⟨elem, d.kernel⟩ ⟨elem, d.output outRows outCols⟩ options =
      (List.range d.groups).flatMap fun group => (List.range d.kernelRows).flatMap fun kh =>
        (List.range d.kernelCols).flatMap fun kw => (List.range outRows).flatMap fun p =>
          (List.range outCols).flatMap fun q =>
            (wordTaps options d.rows d.cols p q kh kw).elim [] fun position =>
              (List.range d.inChannels).map fun ic => convTerm d group kh kw p q ic position := by
  unfold convTerms
  have hinDiv : (⟨elem, d.image⟩ : TensorType).dim 3 / options.groups = d.inChannels := by
    rw [hgroups]
    exact d.inChannels_eq_div
  have houtDiv : (⟨elem, d.kernel⟩ : TensorType).dim 3 / options.groups = d.outChannels := by
    rw [hgroups]
    exact d.outChannels_eq_div
  rw [hinDiv, houtDiv, hgroups]
  refine List.flatMap_congr fun group hgroup => List.flatMap_congr fun kh _ =>
    List.flatMap_congr fun kw _ => List.flatMap_congr fun p _ => List.flatMap_congr fun q _ => ?_
  have hgroup := List.mem_range.mp hgroup
  unfold wordTaps
  cases convInputPosition options p q kh kw with
  | none => rfl
  | some position =>
      obtain ⟨ih, iw⟩ := position
      have hrows : (⟨elem, d.image⟩ : TensorType).dim 1 = d.rows := rfl
      have hcols : (⟨elem, d.image⟩ : TensorType).dim 2 = d.cols := rfl
      dsimp only
      rw [hrows, hcols]
      by_cases hinside : ih < d.rows ∧ iw < d.cols
      · rw [if_neg (by omega), Option.filter_some, if_pos (decide_eq_true hinside)]
        refine List.map_congr_left fun ic hic => ?_
        have hinChannel := d.channel_lt hgroup (List.mem_range.mp hic)
        have houtStart := d.channel_lt hgroup d.outChannels_pos
        rw [usizeMul_of_lt (by omega), usizeMul_of_lt (show group * d.inChannels < 2 ^ 64 by omega),
          usizeAdd_of_lt (by omega)]
        rfl
      · rw [if_pos (by omega), Option.filter_some, if_neg (by simpa using hinside)]
        rfl

/-- What holds of every term. -/
theorem of_mem_convTerms (hgroups : options.groups = d.groups)
    (hin : d.groups * d.inChannels < 2 ^ 64) (hout : d.groups * d.outChannels < 2 ^ 64)
    {term : ConvTerm} (hterm : term ∈ convTerms ⟨elem, d.image⟩ ⟨elem, d.kernel⟩
      ⟨elem, d.output outRows outCols⟩ options) :
    ∃ group kh kw p q ic, ∃ position : ℕ × ℕ, term = convTerm d group kh kw p q ic position ∧
      group < d.groups ∧ kh < d.kernelRows ∧ kw < d.kernelCols ∧ p < outRows ∧ q < outCols ∧
      ic < d.inChannels ∧ position.1 < d.rows ∧ position.2 < d.cols := by
  rw [convTerms_eq hgroups hin hout] at hterm
  simp only [List.mem_flatMap, List.mem_range] at hterm
  obtain ⟨group, hgroup, kh, hkh, kw, hkw, p, hp, q, hq, hmem⟩ := hterm
  cases htap : wordTaps options d.rows d.cols p q kh kw with
  | none =>
      rw [htap] at hmem
      cases hmem
  | some position =>
      rw [htap] at hmem
      obtain ⟨ic, hic, rfl⟩ := List.mem_map.mp hmem
      obtain ⟨-, hinside⟩ := Option.filter_eq_some_iff.mp htap
      obtain ⟨hrow, hcol⟩ := of_decide_eq_true hinside
      exact ⟨group, kh, kw, p, q, ic, position, rfl, hgroup, hkh, hkw, hp, hq,
        List.mem_range.mp hic, hrow, hcol⟩

/-- A sum over the list of a loop. -/
theorem sum_map_flatMap_range {α M : Type*} [AddCommMonoid M] (f : ℕ → List α) (v : α → M) :
    ∀ n : ℕ, (((List.range n).flatMap f).map v).sum =
      ∑ k ∈ Finset.range n, ((f k).map v).sum := by
  intro n
  induction n with
  | zero => rfl
  | succ n ih =>
      rw [List.range_succ, List.flatMap_append, List.map_append, List.sum_append, ih,
        Finset.sum_range_succ, List.flatMap_singleton]

/-- The sum over the terms, loop by loop. -/
theorem sum_convTerms {M : Type*} [AddCommMonoid M] (hgroups : options.groups = d.groups)
    (hin : d.groups * d.inChannels < 2 ^ 64) (hout : d.groups * d.outChannels < 2 ^ 64)
    (v : ConvTerm → M) :
    ((convTerms ⟨elem, d.image⟩ ⟨elem, d.kernel⟩ ⟨elem, d.output outRows outCols⟩ options).map
        v).sum =
      ∑ group ∈ Finset.range d.groups, ∑ kh ∈ Finset.range d.kernelRows,
        ∑ kw ∈ Finset.range d.kernelCols, ∑ p ∈ Finset.range outRows,
          ∑ q ∈ Finset.range outCols,
            (wordTaps options d.rows d.cols p q kh kw).elim 0 fun position =>
              ∑ ic ∈ Finset.range d.inChannels, v (convTerm d group kh kw p q ic position) := by
  rw [convTerms_eq hgroups hin hout]
  simp only [sum_map_flatMap_range]
  refine Finset.sum_congr rfl fun group _ => Finset.sum_congr rfl fun kh _ =>
    Finset.sum_congr rfl fun kw _ => Finset.sum_congr rfl fun p _ =>
      Finset.sum_congr rfl fun q _ => ?_
  cases wordTaps options d.rows d.cols p q kh kw with
  | none => rfl
  | some position =>
      rw [Option.elim_some, Option.elim_some, List.map_map, ← List.toFinset_range,
        List.sum_toFinset _ List.nodup_range]
      rfl

end Terms

/-! ## One piece -/

section Pieces

variable {R : Type u} [CommRing R] {A : Arithmetic R} {calls : Calls (Tensor R)}
  {values : Env (Tensor R)} {input kernel grad : Expr} {elem : ElementType} {d : ConvSizes}
  {outRows outCols : ℕ} {x y g : List ℕ → R} {group kh kw p q ic : ℕ} {position : ℕ × ℕ}

/-- Windows of an array of rank four. -/
theorem windowFits_four {a b c e k l m n s t u v : ℕ} :
    WindowFits [a, b, c, e] [k, l, m, n] [s, t, u, v] ↔
      a + k ≤ s ∧ b + l ≤ t ∧ c + m ≤ u ∧ e + n ≤ v := by
  constructor
  · rintro ⟨-, -, h⟩
    exact ⟨h 0 (by simp), h 1 (by simp), h 2 (by simp), h 3 (by simp)⟩
  · rintro ⟨ha, hb, hc, he⟩
    refine ⟨rfl, rfl, fun axis haxis => ?_⟩
    have haxis : axis < 4 := haxis
    interval_cases axis
    · exact ha
    · exact hb
    · exact hc
    · exact he

/-- Positions of one row and column. -/
theorem exists_unitPosition {batch channels : ℕ} {i : List ℕ}
    (hi : InBounds i [batch, 1, 1, channels]) :
    ∃ b c, i = [b, 0, 0, c] ∧ b < batch ∧ c < channels := by
  obtain ⟨b, r, s, c, rfl⟩ := List.length_eq_four.mp hi.length_eq
  obtain ⟨hb, hr, hs, hc⟩ := inBounds_four.mp hi
  obtain ⟨rfl, rfl⟩ : r = 0 ∧ s = 0 := by omega
  exact ⟨b, c, rfl, hb, hc⟩

/-- The gradient at one output position, the channels of one group. -/
theorem evaluates_convOutputChannelBlock (hdims : UsizeDims (d.output outRows outCols))
    (hgroup : group < d.groups) (hp : p < outRows) (hq : q < outCols)
    (h : Evaluates A calls values grad ⟨elem, d.output outRows outCols⟩ g) :
    Evaluates A calls values (convOutputChannelBlock grad ⟨elem, d.output outRows outCols⟩
        d.outChannels (convTerm d group kh kw p q ic position)) ⟨elem, [d.batch, 1, 1, d.outChannels]⟩
      fun i => g [i.getD 0 0, p, q, group * d.outChannels + i.getD 3 0] := by
  have hchannels : group * d.outChannels + d.outChannels ≤ d.groups * d.outChannels := by
    rw [← Nat.succ_mul]
    exact Nat.mul_le_mul_right _ hgroup
  have hfits : WindowFits [0, p, q, group * d.outChannels] [d.batch, 1, 1, d.outChannels]
      (d.output outRows outCols) :=
    windowFits_four.mpr ⟨(Nat.zero_add d.batch).le, hp, hq, hchannels⟩
  refine (h.slice hfits hdims).congr fun i hi => ?_
  obtain ⟨b, c, rfl, -, -⟩ := exists_unitPosition hi
  simp only [shiftBy, List.zipWith_cons_cons, List.zipWith_nil_left, Nat.zero_add, Nat.add_zero,
    List.getD_cons_zero, List.getD_cons_succ]

/-- **What one term contributes to the input.** -/
theorem evaluates_convInputPiece (helem : elem.isNumeric = true) (himage : UsizeDims d.image)
    (hkernel : UsizeDims d.kernel) (houtput : UsizeDims (d.output outRows outCols))
    (hgroup : group < d.groups) (hkh : kh < d.kernelRows) (hkw : kw < d.kernelCols)
    (hp : p < outRows) (hq : q < outCols) (hic : ic < d.inChannels) (hrow : position.1 < d.rows)
    (hcol : position.2 < d.cols)
    (hg : Evaluates A calls values grad ⟨elem, d.output outRows outCols⟩ g)
    (hy : Evaluates A calls values kernel ⟨elem, d.kernel⟩ y) :
    Evaluates A calls values (convInputPiece kernel grad ⟨elem, d.image⟩ ⟨elem, d.kernel⟩
        ⟨elem, d.output outRows outCols⟩ d.outChannels (convTerm d group kh kw p q ic position))
      ⟨elem, d.image⟩
      (pull (window [0, position.1, position.2, group * d.inChannels + ic] [d.batch, 1, 1, 1])
        fun i => ∑ c ∈ Finset.range d.outChannels,
          g [i.getD 0 0, p, q, group * d.outChannels + c] *
            y [kh, kw, ic, group * d.outChannels + c]) := by
  have hchannels : group * d.outChannels + d.outChannels ≤ d.groups * d.outChannels := by
    rw [← Nat.succ_mul]
    exact Nat.mul_le_mul_right _ hgroup
  have hblock := @evaluates_convOutputChannelBlock R _ A calls values grad elem d outRows outCols g
    group kh kw p q ic position houtput hgroup hp hq hg
  have hkernelBlock : Evaluates A calls values (convKernelOutputBlock kernel ⟨elem, d.kernel⟩
      d.outChannels (convTerm d group kh kw p q ic position)) ⟨elem, [1, 1, 1, d.outChannels]⟩
      fun i => y (shiftBy [kh, kw, ic, group * d.outChannels] i) :=
    hy.slice (windowFits_four.mpr ⟨hkh, hkw, hic, hchannels⟩) hkernel
  have hsmall : BroadcastsTo [1, 1, 1, d.outChannels] [d.batch, 1, 1, d.outChannels] :=
    ⟨le_rfl, .cons (.inr rfl) (.cons (.inl rfl) (.cons (.inl rfl) (.cons (.inl rfl) .nil)))⟩
  have hmul := (hblock.binary_left .mul helem hsmall hkernelBlock).congr
    (y := fun i => g [i.getD 0 0, p, q, group * d.outChannels + i.getD 3 0] *
      y [kh, kw, ic, group * d.outChannels + i.getD 3 0]) fun i hi => by
        obtain ⟨b, c, rfl, -, hc⟩ := exists_unitPosition hi
        have hindex : broadcastIndex [1, 1, 1, d.outChannels] [b, 0, 0, c] = [0, 0, 0, c] := by
          show [0, 0, 0, if d.outChannels = 1 then 0 else c] = _
          rw [ite_eq_right_iff.mpr fun hone => by omega]
        rw [hindex]
        rfl
  have hsum : Evaluates A calls values _ ⟨elem, [d.batch, 1, 1]⟩ _ := hmul.sum 3 helem (by simp)
  have hreshape : Evaluates A calls values _ ⟨elem, [d.batch, 1, 1, 1]⟩ _ :=
    hsum.reshape (by simp)
  refine (hreshape.congr fun i hi => ?_).pad
    (windowFits_four.mpr ⟨(Nat.zero_add _).le, hrow, hcol, d.channel_lt hgroup hic⟩) himage
  obtain ⟨b, c, rfl, hb, hc⟩ := exists_unitPosition hi
  obtain rfl : c = 0 := Nat.lt_one_iff.mp hc
  have hread : unravel [d.batch, 1, 1] (ravel [d.batch, 1, 1, 1] [b, 0, 0, 0]) = [b, 0, 0] := by
    simp [ravel, unravel, Nat.mod_one]
  rw [hread]
  rfl

/-- **What one term contributes to the kernel.** -/
theorem evaluates_convKernelPiece (helem : elem.isNumeric = true) (himage : UsizeDims d.image)
    (hkernel : UsizeDims d.kernel) (houtput : UsizeDims (d.output outRows outCols))
    (hgroup : group < d.groups) (hkh : kh < d.kernelRows) (hkw : kw < d.kernelCols)
    (hp : p < outRows) (hq : q < outCols) (hic : ic < d.inChannels) (hrow : position.1 < d.rows)
    (hcol : position.2 < d.cols)
    (hg : Evaluates A calls values grad ⟨elem, d.output outRows outCols⟩ g)
    (hx : Evaluates A calls values input ⟨elem, d.image⟩ x) :
    Evaluates A calls values (convKernelPiece input grad ⟨elem, d.image⟩ ⟨elem, d.kernel⟩
        ⟨elem, d.output outRows outCols⟩ d.outChannels (convTerm d group kh kw p q ic position))
      ⟨elem, d.kernel⟩
      (pull (window [kh, kw, ic, group * d.outChannels] [1, 1, 1, d.outChannels])
        fun i => ∑ b ∈ Finset.range d.batch,
          x [b, position.1, position.2, group * d.inChannels + ic] *
            g [b, p, q, group * d.outChannels + i.getD 3 0]) := by
  have hchannels : group * d.outChannels + d.outChannels ≤ d.groups * d.outChannels := by
    rw [← Nat.succ_mul]
    exact Nat.mul_le_mul_right _ hgroup
  have hblock := @evaluates_convOutputChannelBlock R _ A calls values grad elem d outRows outCols g
    group kh kw p q ic position houtput hgroup hp hq hg
  have hunit : Evaluates A calls values (convInputUnit input ⟨elem, d.image⟩
      (convTerm d group kh kw p q ic position)) ⟨elem, [d.batch, 1, 1, 1]⟩
      fun i => x (shiftBy [0, position.1, position.2, group * d.inChannels + ic] i) :=
    hx.slice (windowFits_four.mpr ⟨(Nat.zero_add _).le, hrow, hcol, d.channel_lt hgroup hic⟩)
      himage
  have hsmall : BroadcastsTo [d.batch, 1, 1, 1] [d.batch, 1, 1, d.outChannels] :=
    ⟨le_rfl, .cons (.inl rfl) (.cons (.inl rfl) (.cons (.inl rfl) (.cons (.inr rfl) .nil)))⟩
  have hmul := (hunit.binary_right .mul helem hsmall hblock).congr
    (y := fun i => x [i.getD 0 0, position.1, position.2, group * d.inChannels + ic] *
      g [i.getD 0 0, p, q, group * d.outChannels + i.getD 3 0]) fun i hi => by
        obtain ⟨b, c, rfl, hb, -⟩ := exists_unitPosition hi
        have hindex : broadcastIndex [d.batch, 1, 1, 1] [b, 0, 0, c] = [b, 0, 0, 0] := by
          show [if d.batch = 1 then 0 else b, 0, 0, 0] = _
          rw [ite_eq_right_iff.mpr fun hone => by omega]
        rw [hindex]
        simp only [shiftBy, List.zipWith_cons_cons, List.zipWith_nil_left, Nat.zero_add,
          Nat.add_zero]
        rfl
  have hsum2 : Evaluates A calls values _ ⟨elem, [d.batch, 1, d.outChannels]⟩ _ :=
    hmul.sum 2 helem (by simp)
  have hsum1 : Evaluates A calls values _ ⟨elem, [d.batch, d.outChannels]⟩ _ :=
    hsum2.sum 1 helem (by simp)
  have hsum0 : Evaluates A calls values _ ⟨elem, [d.outChannels]⟩ _ :=
    hsum1.sum 0 helem (by simp)
  have hreshape : Evaluates A calls values _ ⟨elem, [1, 1, 1, d.outChannels]⟩ _ :=
    hsum0.reshape (by simp)
  refine (hreshape.congr fun i hi => ?_).pad
    (windowFits_four.mpr ⟨hkh, hkw, hic, hchannels⟩) hkernel
  obtain ⟨b, c, rfl, hb, hc⟩ := exists_unitPosition hi
  obtain rfl : b = 0 := Nat.lt_one_iff.mp hb
  have hread : unravel [d.outChannels] (ravel [1, 1, 1, d.outChannels] [0, 0, 0, c]) = [c] := by
    simp [ravel, unravel]
  rw [hread]
  refine Finset.sum_congr rfl fun b _ => ?_
  exact (Finset.sum_range_one _).trans (Finset.sum_range_one _)

end Pieces

/-! ## The rule -/

section Rule

variable {R : Type u} [CommRing R] {A : Arithmetic R} {calls : Calls (Tensor R)}
  {values : Env (Tensor R)} {input kernel grad : Expr} {elem : ElementType} {d : ConvSizes}
  {options : Conv2dOptions} {outRows outCols : ℕ} {x y g : List ℕ → R}

theorem inner_convInputPiece {group kh kw p q ic : ℕ} {position : ℕ × ℕ} (hgroup : group < d.groups)
    (hic : ic < d.inChannels) (hrow : position.1 < d.rows) (hcol : position.2 < d.cols)
    (v : List ℕ → R) :
    inner d.image (pull (window [0, position.1, position.2, group * d.inChannels + ic]
        [d.batch, 1, 1, 1]) fun i => ∑ c ∈ Finset.range d.outChannels,
          g [i.getD 0 0, p, q, group * d.outChannels + c] *
            y [kh, kw, ic, group * d.outChannels + c]) v =
      tapTerm d g v y group kh kw p q ic position := by
  have hfits : WindowFits [0, position.1, position.2, group * d.inChannels + ic]
      [d.batch, 1, 1, 1] d.image :=
    windowFits_four.mpr ⟨(Nat.zero_add _).le, hrow, hcol, d.channel_lt hgroup hic⟩
  rw [inner_pull_window hfits]
  unfold Arrays.inner tapTerm
  simp only [sum_box_cons, sum_box_nil, Finset.sum_range_one]
  refine Finset.sum_congr rfl fun b _ => ?_
  rw [Finset.sum_mul]
  refine Finset.sum_congr rfl fun c _ => ?_
  simp only [shiftBy, List.zipWith_cons_cons, List.zipWith_nil_left, Nat.zero_add, Nat.add_zero,
    List.getD_cons_zero]
  ring

theorem inner_convKernelPiece {group kh kw p q ic : ℕ} {position : ℕ × ℕ} (hgroup : group < d.groups)
    (hkh : kh < d.kernelRows) (hkw : kw < d.kernelCols) (hic : ic < d.inChannels)
    (w : List ℕ → R) :
    inner d.kernel (pull (window [kh, kw, ic, group * d.outChannels] [1, 1, 1, d.outChannels])
        fun i => ∑ b ∈ Finset.range d.batch,
          x [b, position.1, position.2, group * d.inChannels + ic] *
            g [b, p, q, group * d.outChannels + i.getD 3 0]) w =
      tapTerm d g x w group kh kw p q ic position := by
  have hchannels : group * d.outChannels + d.outChannels ≤ d.groups * d.outChannels := by
    rw [← Nat.succ_mul]
    exact Nat.mul_le_mul_right _ hgroup
  have hfits : WindowFits [kh, kw, ic, group * d.outChannels] [1, 1, 1, d.outChannels] d.kernel :=
    windowFits_four.mpr ⟨hkh, hkw, hic, hchannels⟩
  rw [inner_pull_window hfits]
  unfold Arrays.inner tapTerm
  rw [Finset.sum_comm]
  simp only [sum_box_cons, sum_box_nil, Finset.sum_range_one]
  refine Finset.sum_congr rfl fun c _ => ?_
  rw [Finset.sum_mul]
  refine Finset.sum_congr rfl fun b _ => ?_
  simp only [shiftBy, List.zipWith_cons_cons, List.zipWith_nil_left, Nat.add_zero,
    List.getD_cons_zero, List.getD_cons_succ]
  ring

/-- The image entries that one term contributes. -/
def inputPieceEntry (d : ConvSizes) (g y : List ℕ → R) (term : ConvTerm) : List ℕ → R :=
  pull (window [0, term.ih, term.iw, term.inputChannel] [d.batch, 1, 1, 1]) fun i =>
    ∑ c ∈ Finset.range d.outChannels, g [i.getD 0 0, term.oh, term.ow, term.outputChannelStart + c] *
      y [term.kh, term.kw, term.localInputChannel, term.outputChannelStart + c]

/-- The kernel entries that one term contributes. -/
def kernelPieceEntry (d : ConvSizes) (g x : List ℕ → R) (term : ConvTerm) : List ℕ → R :=
  pull (window [term.kh, term.kw, term.localInputChannel, term.outputChannelStart]
    [1, 1, 1, d.outChannels]) fun i =>
      ∑ b ∈ Finset.range d.batch, x [b, term.ih, term.iw, term.inputChannel] *
        g [b, term.oh, term.ow, term.outputChannelStart + i.getD 3 0]

/-- The terms of the loop add up to the convolution along the taps. -/
theorem sum_convTerms_tapTerm (hgroups : options.groups = d.groups)
    (hin : d.groups * d.inChannels < 2 ^ 64) (hout : d.groups * d.outChannels < 2 ^ 64)
    {v : ConvTerm → R}
    (hv : ∀ group < d.groups, ∀ kh < d.kernelRows, ∀ kw < d.kernelCols, ∀ p < outRows,
      ∀ q < outCols, ∀ ic < d.inChannels, ∀ position : ℕ × ℕ, position.1 < d.rows →
      position.2 < d.cols → v (convTerm d group kh kw p q ic position) =
        tapTerm d g x y group kh kw p q ic position) :
    ((convTerms ⟨elem, d.image⟩ ⟨elem, d.kernel⟩ ⟨elem, d.output outRows outCols⟩ options).map
        v).sum =
      inner (d.output outRows outCols) g
        (tappedConv2d (wordTaps options d.rows d.cols) d x y) := by
  rw [sum_convTerms hgroups hin hout, inner_tappedConv2d]
  refine Finset.sum_congr rfl fun group hgroup => Finset.sum_congr rfl fun kh hkh =>
    Finset.sum_congr rfl fun kw hkw => Finset.sum_congr rfl fun p hp =>
      Finset.sum_congr rfl fun q hq => ?_
  cases htap : wordTaps options d.rows d.cols p q kh kw with
  | none => rfl
  | some position =>
      obtain ⟨-, hinside⟩ := Option.filter_eq_some_iff.mp htap
      obtain ⟨hrow, hcol⟩ := of_decide_eq_true hinside
      refine Finset.sum_congr rfl fun ic hic => ?_
      exact hv group (Finset.mem_range.mp hgroup) kh (Finset.mem_range.mp hkh) kw
        (Finset.mem_range.mp hkw) p (Finset.mem_range.mp hp) q (Finset.mem_range.mp hq) ic
        (Finset.mem_range.mp hic) position hrow hcol

/-- **The rule emits the adjoints of the convolution along the taps that it
computes.** -/
theorem exists_reverseConv2d {env : String → Option TensorType} {ty : TensorType}
    (h : Conv2dTypes ⟨elem, d.image⟩ ⟨elem, d.kernel⟩ ty options elem d)
    (hty : ty = ⟨elem, d.output outRows outCols⟩)
    (hinput : exprTy env input = .ok ⟨elem, d.image⟩)
    (hkernel : exprTy env kernel = .ok ⟨elem, d.kernel⟩) (himage : UsizeDims d.image)
    (hkernelDims : UsizeDims d.kernel) (houtput : UsizeDims (d.output outRows outCols))
    (hg : Evaluates A calls values grad ty g)
    (hx : Evaluates A calls values input ⟨elem, d.image⟩ x)
    (hy : Evaluates A calls values kernel ⟨elem, d.kernel⟩ y) :
    ∃ gx gk : Expr, ∃ a b : List ℕ → R,
      reverseConv2d env [input, kernel] ty options grad = .ok [(input, gx), (kernel, gk)] ∧
      Evaluates A calls values gx ⟨elem, d.image⟩ a ∧
      Evaluates A calls values gk ⟨elem, d.kernel⟩ b ∧
      (∀ v, inner d.image a v = inner (d.output outRows outCols) g
        (tappedConv2d (wordTaps options d.rows d.cols) d v y)) ∧
      ∀ w, inner d.kernel b w = inner (d.output outRows outCols) g
        (tappedConv2d (wordTaps options d.rows d.cols) d x w) := by
  subst hty
  have hin : d.groups * d.inChannels < 2 ^ 64 := himage.getD_lt 3
  have hout : d.groups * d.outChannels < 2 ^ 64 := hkernelDims.getD_lt 3
  have hchannels : (⟨elem, d.kernel⟩ : TensorType).dim 3 / options.groups = d.outChannels := by
    rw [h.groups]
    exact d.outChannels_eq_div
  have hinputPieces : ∀ term ∈ convTerms ⟨elem, d.image⟩ ⟨elem, d.kernel⟩
      ⟨elem, d.output outRows outCols⟩ options, Evaluates A calls values
        (convInputPiece kernel grad ⟨elem, d.image⟩ ⟨elem, d.kernel⟩
          ⟨elem, d.output outRows outCols⟩ d.outChannels term) ⟨elem, d.image⟩
        (inputPieceEntry d g y term) := by
    intro term hterm
    obtain ⟨group, kh, kw, p, q, ic, position, rfl, hgroup, hkh, hkw, hp, hq, hic, hrow, hcol⟩ :=
      of_mem_convTerms h.groups hin hout hterm
    exact evaluates_convInputPiece h.numeric himage hkernelDims houtput hgroup hkh hkw hp hq hic
      hrow hcol hg hy
  have hkernelPieces : ∀ term ∈ convTerms ⟨elem, d.image⟩ ⟨elem, d.kernel⟩
      ⟨elem, d.output outRows outCols⟩ options, Evaluates A calls values
        (convKernelPiece input grad ⟨elem, d.image⟩ ⟨elem, d.kernel⟩
          ⟨elem, d.output outRows outCols⟩ d.outChannels term) ⟨elem, d.kernel⟩
        (kernelPieceEntry d g x term) := by
    intro term hterm
    obtain ⟨group, kh, kw, p, q, ic, position, rfl, hgroup, hkh, hkw, hp, hq, hic, hrow, hcol⟩ :=
      of_mem_convTerms h.groups hin hout hterm
    exact evaluates_convKernelPiece h.numeric himage hkernelDims houtput hgroup hkh hkw hp hq hic
      hrow hcol hg hx
  refine ⟨_, _, _, _, ?_, evaluates_sumPieces_getD h.numeric hx hinputPieces,
    evaluates_sumPieces_getD h.numeric hy hkernelPieces, fun v => ?_, fun w => ?_⟩
  · simp only [reverseConv2d, except_bind_eq_ok_iff, except_pure_eq_ok_iff]
    refine ⟨_, hinput, _, hkernel, ?_⟩
    rw [hchannels]
    rfl
  · rw [inner_list_sum]
    refine sum_convTerms_tapTerm h.groups hin hout ?_
    intro group hgroup kh _ kw _ p _ q _ ic hic position hrow hcol
    exact inner_convInputPiece hgroup hic hrow hcol v
  · rw [inner_list_sum]
    refine sum_convTerms_tapTerm h.groups hin hout ?_
    intro group hgroup kh hkh kw hkw p _ q _ ic hic position _ _
    exact inner_convKernelPiece hgroup hkh hkw hic w

end Rule

/-! ## When the taps agree -/

/-- A row and a column lie in the image that is padded. -/
def Covers (options : Conv2dOptions) (rows cols row col : ℕ) : Prop :=
  (options.padding.top ≤ row ∧ row < options.padding.top + rows) ∧
    options.padding.left ≤ col ∧ col < options.padding.left + cols

instance (options : Conv2dOptions) (rows cols row col : ℕ) :
    Decidable (Covers options rows cols row col) :=
  inferInstanceAs (Decidable (_ ∧ _))

/-- Taking rows and columns modulo `2 ^ 64` does not change whether they lie in the
image, unless there is no image. -/
def TapsAgree (inputTy kernelTy ty : TensorType) (options : Conv2dOptions) : Prop :=
  inputTy.dim 0 = 0 ∨ ∀ p < ty.dim 1, ∀ q < ty.dim 2, ∀ kh < kernelTy.dim 0,
    ∀ kw < kernelTy.dim 1,
      Covers options (inputTy.dim 1) (inputTy.dim 2)
          ((p * options.stride.1 + kh * options.dilation.1) % 2 ^ 64)
          ((q * options.stride.2 + kw * options.dilation.2) % 2 ^ 64) ↔
        Covers options (inputTy.dim 1) (inputTy.dim 2)
          (p * options.stride.1 + kh * options.dilation.1)
          (q * options.stride.2 + kw * options.dilation.2)

section Agreement

variable {options : Conv2dOptions} {rows cols p q kh kw : ℕ}

theorem taps_isSome_iff :
    (options.window.taps rows cols p q kh kw).isSome = true ↔
      Covers options rows cols (p * options.stride.1 + kh * options.dilation.1)
        (q * options.stride.2 + kw * options.dilation.2) := by
  unfold Window.taps
  dsimp only
  split_ifs with hcovers
  · exact iff_of_true rfl hcovers
  · exact iff_of_false Bool.false_ne_true hcovers

theorem wordTaps_eq_some_iff {position : ℕ × ℕ} :
    wordTaps options rows cols p q kh kw = some position ↔
      Covers options rows cols ((p * options.stride.1 + kh * options.dilation.1) % 2 ^ 64)
          ((q * options.stride.2 + kw * options.dilation.2) % 2 ^ 64) ∧
        position = ((p * options.stride.1 + kh * options.dilation.1) % 2 ^ 64 -
            options.padding.top,
          (q * options.stride.2 + kw * options.dilation.2) % 2 ^ 64 - options.padding.left) := by
  have hrow : usizeAdd (usizeMul p options.stride.1) (usizeMul kh options.dilation.1) =
      (p * options.stride.1 + kh * options.dilation.1) % 2 ^ 64 := (Nat.add_mod _ _ _).symm
  have hcol : usizeAdd (usizeMul q options.stride.2) (usizeMul kw options.dilation.2) =
      (q * options.stride.2 + kw * options.dilation.2) % 2 ^ 64 := (Nat.add_mod _ _ _).symm
  unfold wordTaps convInputPosition windowPosition
  dsimp only
  rw [hrow, hcol]
  generalize (p * options.stride.1 + kh * options.dilation.1) % 2 ^ 64 = row
  generalize (q * options.stride.2 + kw * options.dilation.2) % 2 ^ 64 = col
  unfold Covers
  split_ifs with hpadding
  · simp only [Option.filter_none, reduceCtorEq, false_iff]
    rintro ⟨⟨⟨htop, -⟩, hleft, -⟩, -⟩
    omega
  · rw [Option.filter_eq_some_iff, decide_eq_true_iff, Option.some.injEq]
    constructor
    · rintro ⟨rfl, hrows, hcols⟩
      refine ⟨⟨⟨?_, ?_⟩, ?_, ?_⟩, rfl⟩ <;> omega
    · rintro ⟨⟨⟨htop, hrows⟩, hleft, hcols⟩, rfl⟩
      refine ⟨rfl, ?_, ?_⟩ <;> dsimp only <;> omega

theorem wordTaps_isSome_iff :
    (wordTaps options rows cols p q kh kw).isSome = true ↔
      Covers options rows cols ((p * options.stride.1 + kh * options.dilation.1) % 2 ^ 64)
        ((q * options.stride.2 + kw * options.dilation.2) % 2 ^ 64) := by
  rw [Option.isSome_iff_exists]
  constructor
  · rintro ⟨position, htap⟩
    exact (wordTaps_eq_some_iff.mp htap).1
  · intro hcovers
    exact ⟨_, wordTaps_eq_some_iff.mpr ⟨hcovers, rfl⟩⟩

/-- A number and its remainder, both within fewer than `2 ^ 64` consecutive numbers. -/
theorem mod_eq_self_of_block {n low size : ℕ} (hsize : size < 2 ^ 64)
    (hmod : low ≤ n % 2 ^ 64) (hn : n < low + size) : n % 2 ^ 64 = n := by
  have hdiv := Nat.div_add_mod n (2 ^ 64)
  have hlt := Nat.mod_lt n (show 2 ^ 64 > 0 by norm_num)
  rcases Nat.eq_zero_or_pos (n / 2 ^ 64) with hzero | hpos
  · rw [hzero, Nat.mul_zero, Nat.zero_add] at hdiv
    exact hdiv
  · have hle : 2 ^ 64 * 1 ≤ 2 ^ 64 * (n / 2 ^ 64) := Nat.mul_le_mul_left _ hpos
    omega

/-- Positions that lie in the image both ways are the same. -/
theorem wordTaps_eq_taps (hrows : rows < 2 ^ 64) (hcols : cols < 2 ^ 64)
    (h : Covers options rows cols ((p * options.stride.1 + kh * options.dilation.1) % 2 ^ 64)
        ((q * options.stride.2 + kw * options.dilation.2) % 2 ^ 64) ↔
      Covers options rows cols (p * options.stride.1 + kh * options.dilation.1)
        (q * options.stride.2 + kw * options.dilation.2)) :
    wordTaps options rows cols p q kh kw = options.window.taps rows cols p q kh kw := by
  by_cases hcovers : Covers options rows cols (p * options.stride.1 + kh * options.dilation.1)
      (q * options.stride.2 + kw * options.dilation.2)
  · have hwords := h.mpr hcovers
    have hrow := mod_eq_self_of_block hrows hwords.1.1 hcovers.1.2
    have hcol := mod_eq_self_of_block hcols hwords.2.1 hcovers.2.2
    have htap : options.window.taps rows cols p q kh kw =
        some (p * options.stride.1 + kh * options.dilation.1 - options.padding.top,
          q * options.stride.2 + kw * options.dilation.2 - options.padding.left) := if_pos hcovers
    rw [htap, wordTaps_eq_some_iff, hrow, hcol]
    exact ⟨hcovers, rfl⟩
  · have hnone : options.window.taps rows cols p q kh kw = none := if_neg hcovers
    rw [hnone, ← Option.not_isSome_iff_eq_none, wordTaps_isSome_iff, h]
    exact hcovers

end Agreement

/-! ## The gradients are adjoints -/

/-- The two gradients that the rule emits are the adjoints of the convolution in its
two operands, over every commutative ring, and have the types of the operands. -/
def Conv2dGradientsAdjoint (inputTy kernelTy ty : TensorType) (options : Conv2dOptions) : Prop :=
  ∀ (R : Type u) [CommRing R] (env : String → Option TensorType) (node : Node)
    (input kernel : Expr), node.ty = ty → exprTy env input = .ok inputTy →
    exprTy env kernel = .ok kernelTy → ∀ (A : Arithmetic R) (calls : Calls (Tensor R))
      (values : Env (Tensor R)) (grad : Expr) (g x y : List ℕ → R),
      Evaluates A calls values grad ty g → Evaluates A calls values input inputTy x →
      Evaluates A calls values kernel kernelTy y →
      ∃ gx gk : Expr, ∃ a b : List ℕ → R,
        reverseCall env node (.conv2d options) [input, kernel] grad =
          .ok [(input, gx), (kernel, gk)] ∧
        Evaluates A calls values gx inputTy a ∧ Evaluates A calls values gk kernelTy b ∧
        (∀ v, inner ty.shape g
          (conv2d options.window inputTy.shape kernelTy.shape options.groups v y) =
            inner inputTy.shape a v) ∧
        ∀ w, inner ty.shape g
          (conv2d options.window inputTy.shape kernelTy.shape options.groups x w) =
            inner kernelTy.shape b w

section Adjoint

variable {inputTy kernelTy ty : TensorType} {options : Conv2dOptions} {elem : ElementType}
  {d : ConvSizes}

/-- The convolution along the window's taps, seen at one output position and one
kernel position. -/
theorem tappedConv2d_unitArray {R : Type u} [CommRing R] {taps : Taps} {p q kh kw : ℕ}
    (hic : 0 < d.inChannels) (hkh : kh < d.kernelRows) (hkw : kw < d.kernelCols) :
    tappedConv2d taps d (fun _ => (1 : R)) (unitArray [kh, kw, 0, 0]) [0, p, q, 0] =
      if (taps p q kh kw).isSome then 1 else 0 := by
  have hentry := @tappedConv2d_entry R _ d (fun _ => (1 : R)) (unitArray [kh, kw, 0, 0]) taps 0 p q 0
    0 d.outChannels_pos
  rw [Nat.zero_mul] at hentry
  rw [hentry]
  have hread : ∀ kh' kw' ic, (unitArray [kh, kw, 0, 0] [kh', kw', ic, 0] : R) =
      if ic = 0 then if kw' = kw then if kh' = kh then 1 else 0 else 0 else 0 := by
    intro kh' kw' ic
    unfold unitArray
    simp only [List.cons.injEq, and_true]
    split_ifs <;> grind
  simp only [Nat.add_zero, hread, mul_ite, mul_one, mul_zero, Finset.sum_ite_eq',
    Finset.mem_range, hic, hkh, hkw, if_true]
  unfold tapRead
  cases taps p q kh kw <;> rfl

theorem inner_tappedConv2d_congr {R : Type u} [CommRing R] {taps taps' : Taps} {outRows outCols : ℕ}
    (h : d.batch = 0 ∨ ∀ p < outRows, ∀ q < outCols, ∀ kh < d.kernelRows, ∀ kw < d.kernelCols,
      taps p q kh kw = taps' p q kh kw) (g x y : List ℕ → R) :
    inner (d.output outRows outCols) g (tappedConv2d taps d x y) =
      inner (d.output outRows outCols) g (tappedConv2d taps' d x y) := by
  refine inner_congr (fun _ _ => rfl) fun i hi => ?_
  obtain ⟨b, p, q, group, c, rfl, hb, hp, hq, -, hc⟩ := ConvSizes.exists_position hi
  rcases h with hempty | htaps
  · omega
  · rw [tappedConv2d_entry taps hc, tappedConv2d_entry taps' hc]
    refine Finset.sum_congr rfl fun kh hkh => Finset.sum_congr rfl fun kw hkw => ?_
    rw [htaps p hp q hq kh (Finset.mem_range.mp hkh) kw (Finset.mem_range.mp hkw)]

/-- The operands, one everywhere in the image and at one position of the kernel and
of the gradient, tell the taps apart. -/
theorem tapsAgree_of_adjoint (h : Conv2dTypes inputTy kernelTy ty options elem d)
    (hfloat : ty.elem.isFloat = true) (hinput : UsizeDims inputTy.shape)
    (hkernel : UsizeDims kernelTy.shape) (hty : UsizeDims ty.shape)
    (hadjoint : Conv2dGradientsAdjoint.{u} inputTy kernelTy ty options) :
    TapsAgree inputTy kernelTy ty options := by
  refine or_iff_not_imp_left.mpr fun hbatch p hp q hq kh hkh kw hkw => ?_
  obtain ⟨outRows, outCols, houtput⟩ : ∃ outRows outCols, ty = ⟨elem, d.output outRows outCols⟩ :=
    ⟨_, _, h.ty_eq⟩
  obtain rfl := h.input_ty
  obtain rfl := h.kernel_ty
  subst houtput
  have hbatch : 0 < d.batch := Nat.pos_of_ne_zero hbatch
  let x : List ℕ → ULift.{u} ℤ := fun _ => 1
  let w : List ℕ → ULift.{u} ℤ := unitArray [kh, kw, 0, 0]
  let g : List ℕ → ULift.{u} ℤ := unitArray [0, p, q, 0]
  have hposition : InBounds [0, p, q, 0] (d.output outRows outCols) :=
    inBounds_four.mpr ⟨hbatch, hp, hq, Nat.mul_pos d.groups_pos d.outChannels_pos⟩
  let node : Node := ⟨"z", .call (.conv2d options) [.var "x", .var "y"],
    ⟨elem, d.output outRows outCols⟩⟩
  let env := pairEnv ⟨elem, d.image⟩ ⟨elem, d.kernel⟩
  let A : Arithmetic (ULift.{u} ℤ) := ⟨fun _ _ => 0, fun _ _ _ => 0, fun _ _ _ _ => 0⟩
  let values := operandValues ⟨⟨elem, d.image⟩, x⟩ ⟨⟨elem, d.kernel⟩, w⟩
    ⟨⟨elem, d.output outRows outCols⟩, g⟩
  have hx : Evaluates A noCalls values (.var "x") ⟨elem, d.image⟩ x := ⟨_, rfl, rfl, fun _ _ => rfl⟩
  have hw : Evaluates A noCalls values (.var "y") ⟨elem, d.kernel⟩ w := ⟨_, rfl, rfl, fun _ _ => rfl⟩
  have hg : Evaluates A noCalls values (.var "g") ⟨elem, d.output outRows outCols⟩ g :=
    ⟨_, rfl, rfl, fun _ _ => rfl⟩
  have hstops : callStopsGradient (.conv2d options) node.ty = false := by
    simp [callStopsGradient, node, hfloat]
  -- what the rule emits, by the claim and by its evaluation
  obtain ⟨gx, gk, a, b, hcall, -, hgk, -, hclaim⟩ := hadjoint (ULift.{u} ℤ) env node (.var "x")
    (.var "y") rfl rfl rfl A noCalls values (.var "g") g x w hg hx hw
  have hxTy : exprTy env (.var "x") = .ok ⟨elem, d.image⟩ := rfl
  have hyTy : exprTy env (.var "y") = .ok ⟨elem, d.kernel⟩ := rfl
  obtain ⟨gx', gk', a', b', hrule, -, hgk', -, hevaluated⟩ :=
    exists_reverseConv2d h rfl hxTy hyTy hinput hkernel hty hg hx hw
  have hemitted : gk' = gk := by
    have hcall' : reverseCall env node (.conv2d options) [.var "x", .var "y"] (.var "g") =
        .ok [(.var "x", gx'), (.var "y", gk')] := by
      rw [← hrule]
      simp only [reverseCall, hstops, Bool.false_eq_true, if_false]
      rfl
    rw [hcall] at hcall'
    simp only [Except.ok.injEq, List.cons.injEq, Prod.mk.injEq, true_and, and_true] at hcall'
    exact hcall'.2.symm
  subst hemitted
  have hsame : inner d.kernel b w = inner d.kernel b' w :=
    inner_congr (fun i hi => hgk.entry_eq hgk' hi) fun _ _ => rfl
  have hclaim := hclaim w
  have htaps := hevaluated w
  rw [← hsame, ← hclaim] at htaps
  have hwindow : inner (d.output outRows outCols) g
      (conv2d options.window d.image d.kernel options.groups x w) =
        inner (d.output outRows outCols) g
          (tappedConv2d (options.window.taps d.rows d.cols) d x w) := by
    rw [h.groups]
    exact inner_congr (fun _ _ => rfl) fun i hi => conv2d_eq_tapped hi
  have hseen := hwindow.symm.trans htaps
  rw [inner_unitArray hposition, inner_unitArray hposition,
    tappedConv2d_unitArray h.inChannels_pos hkh hkw,
    tappedConv2d_unitArray h.inChannels_pos hkh hkw] at hseen
  show Covers options d.rows d.cols _ _ ↔ Covers options d.rows d.cols _ _
  rw [← wordTaps_isSome_iff, ← taps_isSome_iff]
  cases hword : (wordTaps options d.rows d.cols p q kh kw).isSome <;>
    cases htap : (options.window.taps d.rows d.cols p q kh kw).isSome <;>
    simp [hword, htap] at hseen ⊢

/-- **The gradients of a convolution are adjoints exactly where its taps survive
64-bit arithmetic.** -/
theorem conv2dGradientsAdjoint_iff (hok : inferCallResults (.conv2d options) [inputTy, kernelTy] =
      .ok [ty]) (hfloat : ty.elem.isFloat = true) (hinput : UsizeDims inputTy.shape)
    (hkernel : UsizeDims kernelTy.shape) :
    Conv2dGradientsAdjoint.{u} inputTy kernelTy ty options ↔
      TapsAgree inputTy kernelTy ty options := by
  obtain ⟨elem, d, h⟩ := Conv2dTypes.of_inferCallResults hok
  have hty : UsizeDims ty.shape := h.usizeDims hinput hkernel
  refine ⟨tapsAgree_of_adjoint h hfloat hinput hkernel hty, fun htaps => ?_⟩
  intro R _ env node input kernel hnode hinputTy hkernelTy A calls values grad g x y hg hx hy
  obtain ⟨outRows, outCols, houtput⟩ : ∃ outRows outCols, ty = ⟨elem, d.output outRows outCols⟩ :=
    ⟨_, _, h.ty_eq⟩
  obtain rfl := h.input_ty
  obtain rfl := h.kernel_ty
  subst houtput
  obtain ⟨gx, gk, a, b, hrule, hgx, hgk, hinner, hinner'⟩ :=
    exists_reverseConv2d h rfl hinputTy hkernelTy hinput hkernel hty hg hx hy
  have hstops : callStopsGradient (.conv2d options) node.ty = false := by
    rw [hnode]
    simp [callStopsGradient, hfloat]
  have hagree : d.batch = 0 ∨ ∀ p < outRows, ∀ q < outCols, ∀ kh < d.kernelRows,
      ∀ kw < d.kernelCols, options.window.taps d.rows d.cols p q kh kw =
        wordTaps options d.rows d.cols p q kh kw := by
    refine htaps.imp_right fun htaps p hp q hq kh hkh kw hkw => ?_
    exact (wordTaps_eq_taps (hinput.getD_lt 1) (hinput.getD_lt 2)
      (htaps p hp q hq kh hkh kw hkw)).symm
  have hwindow : ∀ v w, inner (d.output outRows outCols) g
      (conv2d options.window d.image d.kernel options.groups v w) =
        inner (d.output outRows outCols) g
          (tappedConv2d (wordTaps options d.rows d.cols) d v w) := by
    intro v w
    rw [h.groups, ← inner_tappedConv2d_congr hagree]
    exact inner_congr (fun _ _ => rfl) fun i hi => conv2d_eq_tapped hi
  refine ⟨gx, gk, a, b, ?_, hgx, hgk, fun v => (hwindow v y).trans (hinner v).symm,
    fun w => (hwindow x w).trans (hinner' w).symm⟩
  simp only [reverseCall, hstops, Bool.false_eq_true, if_false]
  rw [hnode]
  exact hrule

/-- Where the extents are words, the taps agree. -/
theorem tapsAgree_of_extentsFit (h : Conv2dTypes inputTy kernelTy ty options elem d)
    (hfit : options.ExtentsFit d) : TapsAgree inputTy kernelTy ty options := by
  have hrows := paddedExtent_of_lt hfit.padded_rows
  have hcols := paddedExtent_of_lt hfit.padded_cols
  refine .inr fun p hp q hq kh hkh kw hkw => ?_
  rw [h.ty_eq] at hp hq
  rw [h.kernel_ty] at hkh hkw
  have hrow := tap_lt hfit.effective_rows (hrows.symm ▸ hfit.padded_rows) h.rows_fit hp hkh
  have hcol := tap_lt hfit.effective_cols (hcols.symm ▸ hfit.padded_cols) h.cols_fit hq hkw
  have hpaddedRows := hfit.padded_rows
  have hpaddedCols := hfit.padded_cols
  rw [Nat.mod_eq_of_lt (by omega), Nat.mod_eq_of_lt (by omega)]

end Adjoint

/-- Two groups, padding and strides. -/
def stridedOptions : Conv2dOptions := ⟨⟨1, 1, 0, 1⟩, (2, 2), (1, 1), 2⟩

theorem conv2dGradientsAdjoint_strided :
    Conv2dGradientsAdjoint.{0} ⟨.f32, [1, 4, 3, 2]⟩ ⟨.f32, [2, 2, 1, 4]⟩ ⟨.f32, [1, 3, 2, 4]⟩
      stridedOptions :=
  (conv2dGradientsAdjoint_iff rfl rfl (by decide) (by decide)).mpr
    (.inr (by decide))

/-- The dilated kernel wraps to one row, and its last row to the first row of the
image. -/
def wrappedOptions : Conv2dOptions := ⟨⟨0, 0, 0, 0⟩, (1, 1), (2 ^ 63, 1), 1⟩

theorem not_conv2dGradientsAdjoint_wrapped :
    inferCallResults (.conv2d wrappedOptions) [⟨.f32, [1, 1, 1, 1]⟩, ⟨.f32, [3, 1, 1, 1]⟩] =
        .ok [⟨.f32, [1, 1, 1, 1]⟩] ∧
      ¬ Conv2dGradientsAdjoint.{0} ⟨.f32, [1, 1, 1, 1]⟩ ⟨.f32, [3, 1, 1, 1]⟩
        ⟨.f32, [1, 1, 1, 1]⟩ wrappedOptions := by
  have hok : inferCallResults (.conv2d wrappedOptions)
      [⟨.f32, [1, 1, 1, 1]⟩, ⟨.f32, [3, 1, 1, 1]⟩] = .ok [⟨.f32, [1, 1, 1, 1]⟩] := rfl
  refine ⟨hok, fun hadjoint => ?_⟩
  obtain ⟨elem, d, h⟩ := Conv2dTypes.of_inferCallResults hok
  rcases tapsAgree_of_adjoint h rfl (by decide) (by decide) (by decide) hadjoint with hbatch | htaps
  · cases hbatch
  · have hlast := htaps 0 (by decide) 0 (by decide) 2 (by decide) 0 (by decide)
    exact absurd (hlast.mp (by decide)) (by decide)

end Knok.Autograd
