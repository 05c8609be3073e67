import Mathlib
import Knok.Arrays.Layout

/-!
# Convolutions

The grouped two-dimensional convolution of an image with a kernel.  The image
has axes batch, row, column, channel; the kernel has axes row, column, input
channel of its group, output channel.  Around the image lie zeros.
-/

namespace Arrays

/-- The numbers of a convolution besides its shapes. -/
structure Window where
  top : ℕ
  left : ℕ
  strideH : ℕ
  strideW : ℕ
  dilationH : ℕ
  dilationW : ℕ

/-- The position of the padded image that an output position and a kernel
position meet at. -/
def Window.paddedPosition (w : Window) (inPerGroup outPerGroup : ℕ) (i k : List ℕ) : List ℕ :=
  [i.getD 0 0, i.getD 1 0 * w.strideH + k.getD 0 0 * w.dilationH,
    i.getD 2 0 * w.strideW + k.getD 1 0 * w.dilationW,
    i.getD 3 0 / outPerGroup * inPerGroup + k.getD 2 0]

/-- The image with zeros around it. -/
def Window.padded {R : Type*} [Zero R] (w : Window) (image : List ℕ) (x : List ℕ → R) :
    List ℕ → R :=
  pull (window [0, w.top, w.left, 0] image) x

/-- The convolution: at an output position the sum over the kernel's rows,
columns and input channels. -/
def conv2d {R : Type*} [NonUnitalNonAssocSemiring R] (w : Window) (image kernel : List ℕ)
    (groups : ℕ) (x y : List ℕ → R) (i : List ℕ) : R :=
  ∑ k ∈ box (kernel.take 3),
    w.padded image x
        (w.paddedPosition (kernel.getD 2 0) (kernel.getD 3 0 / groups) i k) *
      y (k ++ [i.getD 3 0])

/-! ## Sizes -/

/-- The sizes of a grouped convolution; channels are counted for one group. -/
structure ConvSizes where
  batch : ℕ
  rows : ℕ
  cols : ℕ
  inChannels : ℕ
  kernelRows : ℕ
  kernelCols : ℕ
  outChannels : ℕ
  groups : ℕ
  outChannels_pos : 0 < outChannels
  groups_pos : 0 < groups

namespace ConvSizes

variable (d : ConvSizes)

/-- The shape of the image. -/
def image : List ℕ := [d.batch, d.rows, d.cols, d.groups * d.inChannels]

/-- The shape of the kernel. -/
def kernel : List ℕ := [d.kernelRows, d.kernelCols, d.inChannels, d.groups * d.outChannels]

/-- The shape of a result with so many rows and columns. -/
def output (outRows outCols : ℕ) : List ℕ :=
  [d.batch, outRows, outCols, d.groups * d.outChannels]

theorem outChannels_eq_div : d.groups * d.outChannels / d.groups = d.outChannels :=
  Nat.mul_div_cancel_left _ d.groups_pos

theorem inChannels_eq_div : d.groups * d.inChannels / d.groups = d.inChannels :=
  Nat.mul_div_cancel_left _ d.groups_pos

theorem channel_div {c : ℕ} (hc : c < d.outChannels) (group : ℕ) :
    (group * d.outChannels + c) / d.outChannels = group := by
  rw [Nat.add_comm, Nat.add_mul_div_right _ _ d.outChannels_pos, Nat.div_eq_of_lt hc, Nat.zero_add]

theorem channel_lt {size group c : ℕ} (hgroup : group < d.groups) (hc : c < size) :
    group * size + c < d.groups * size :=
  calc group * size + c < group * size + size := Nat.add_lt_add_left hc _
    _ = (group + 1) * size := (Nat.succ_mul _ _).symm
    _ ≤ d.groups * size := Nat.mul_le_mul_right _ hgroup

end ConvSizes

section Entries

variable {R : Type*} [NonUnitalNonAssocSemiring R] (w : Window) (d : ConvSizes)
  (x y : List ℕ → R)

theorem sum_box_three {M : Type*} [AddCommMonoid M] (l m n : ℕ) (f : List ℕ → M) :
    ∑ k ∈ box [l, m, n], f k =
      ∑ a ∈ Finset.range l, ∑ b ∈ Finset.range m, ∑ c ∈ Finset.range n, f [a, b, c] := by
  simp only [sum_box_cons, sum_box_nil]

/-- **The entries of a convolution**, at a channel of a group. -/
theorem conv2d_entry {b p q group c : ℕ} (hc : c < d.outChannels) :
    conv2d w d.image d.kernel d.groups x y [b, p, q, group * d.outChannels + c] =
      ∑ kh ∈ Finset.range d.kernelRows, ∑ kw ∈ Finset.range d.kernelCols,
        ∑ ic ∈ Finset.range d.inChannels,
          w.padded d.image x [b, p * w.strideH + kh * w.dilationH,
              q * w.strideW + kw * w.dilationW, group * d.inChannels + ic] *
            y [kh, kw, ic, group * d.outChannels + c] := by
  have hout : d.kernel.getD 3 0 / d.groups = d.outChannels := d.outChannels_eq_div
  have hgroup : [b, p, q, group * d.outChannels + c].getD 3 0 / d.outChannels = group :=
    d.channel_div hc group
  unfold conv2d
  rw [hout]
  refine (sum_box_three d.kernelRows d.kernelCols d.inChannels _).trans ?_
  unfold Window.paddedPosition
  rw [hgroup]
  rfl

end Entries

/-! ## Padding first, group by group -/

/-- The window over an image that has been padded. -/
def Window.unpadded (w : Window) : Window := { w with top := 0, left := 0 }

/-- Every position that is read lies in an image of so many rows and columns. -/
structure Window.ReadsInside (w : Window) (rows cols : ℕ) (d : ConvSizes) (outRows outCols : ℕ) :
    Prop where
  row_lt : ∀ p < outRows, ∀ kh < d.kernelRows, p * w.strideH + kh * w.dilationH < rows
  col_lt : ∀ q < outCols, ∀ kw < d.kernelCols, q * w.strideW + kw * w.dilationW < cols

theorem inBounds_four {b p q c batch rows cols channels : ℕ} :
    InBounds [b, p, q, c] [batch, rows, cols, channels] ↔
      b < batch ∧ p < rows ∧ q < cols ∧ c < channels := by
  simp

namespace ConvSizes

/-- A position of the result, its channel split into a group and a channel of it. -/
theorem exists_position {d : ConvSizes} {outRows outCols : ℕ} {i : List ℕ}
    (hi : InBounds i (d.output outRows outCols)) :
    ∃ b p q group c, i = [b, p, q, group * d.outChannels + c] ∧ b < d.batch ∧ p < outRows ∧
      q < outCols ∧ group < d.groups ∧ c < d.outChannels := by
  obtain ⟨b, p, q, f, rfl⟩ : ∃ b p q f, i = [b, p, q, f] :=
    List.length_eq_four.mp hi.length_eq
  obtain ⟨hb, hp, hq, hf⟩ := inBounds_four.mp hi
  refine ⟨b, p, q, f / d.outChannels, f % d.outChannels, ?_, hb, hp, hq, ?_,
    Nat.mod_lt _ d.outChannels_pos⟩
  · rw [Nat.div_add_mod']
  · rwa [Nat.div_lt_iff_lt_mul d.outChannels_pos]

variable (d : ConvSizes)

/-- The sizes with another number of rows and columns. -/
def withImage (rows cols : ℕ) : ConvSizes := { d with rows := rows, cols := cols }

/-- The sizes of one group. -/
def single : ConvSizes := { d with groups := 1, groups_pos := Nat.one_pos }

theorem single_image : d.single.image = d.image.set 3 d.inChannels := by
  simp [single, image]

theorem single_kernel : d.single.kernel = d.kernel.set 3 d.outChannels := by
  simp [single, kernel]

end ConvSizes

section Inside

variable {R : Type*} [NonUnitalNonAssocSemiring R] {w : Window} {d : ConvSizes}
  {x y : List ℕ → R} {outRows outCols b p q group c : ℕ}

theorem Window.padded_unpadded (w : Window) {image i : List ℕ} (hi : InBounds i image)
    (hrank : image.length = 4) (z : List ℕ → R) : w.unpadded.padded image z i = z i := by
  have hlen : i.length = 4 := hi.length_eq.trans hrank
  have hshift : shiftBy [0, 0, 0, 0] i = i := by
    have hzeros := shiftBy_zeros i
    rwa [hlen] at hzeros
  have hoffsets : [0, 0, 0, 0].length = image.length := hrank.symm
  exact pull_some ((window_eq_some_iff hoffsets).mpr ⟨hi, hshift.symm⟩)

/-- The entries of a convolution without padding. -/
theorem conv2d_entry_inside (hreads : w.ReadsInside d.rows d.cols d outRows outCols)
    (hb : b < d.batch) (hp : p < outRows) (hq : q < outCols) (hgroup : group < d.groups)
    (hc : c < d.outChannels) :
    conv2d w.unpadded d.image d.kernel d.groups x y [b, p, q, group * d.outChannels + c] =
      ∑ kh ∈ Finset.range d.kernelRows, ∑ kw ∈ Finset.range d.kernelCols,
        ∑ ic ∈ Finset.range d.inChannels,
          x [b, p * w.strideH + kh * w.dilationH, q * w.strideW + kw * w.dilationW,
              group * d.inChannels + ic] * y [kh, kw, ic, group * d.outChannels + c] := by
  rw [conv2d_entry w.unpadded d x y hc]
  refine Finset.sum_congr rfl fun kh hkh => Finset.sum_congr rfl fun kw hkw =>
    Finset.sum_congr rfl fun ic hic => ?_
  have hread : InBounds [b, p * w.strideH + kh * w.dilationH, q * w.strideW + kw * w.dilationW,
      group * d.inChannels + ic] d.image :=
    inBounds_four.mpr ⟨hb, hreads.row_lt p hp kh (Finset.mem_range.mp hkh),
      hreads.col_lt q hq kw (Finset.mem_range.mp hkw),
      d.channel_lt hgroup (Finset.mem_range.mp hic)⟩
  exact congrArg (· * _) (w.padded_unpadded hread rfl x)

/-- **Padding first**: the convolution of the padded image. -/
theorem conv2d_withImage {rows cols : ℕ} (hreads : w.ReadsInside rows cols d outRows outCols)
    {i : List ℕ} (hi : InBounds i (d.output outRows outCols)) :
    conv2d w.unpadded (d.withImage rows cols).image d.kernel d.groups (w.padded d.image x) y i =
      conv2d w d.image d.kernel d.groups x y i := by
  obtain ⟨b, p, q, group, c, rfl, hb, hp, hq, hgroup, hc⟩ := ConvSizes.exists_position hi
  have hreads' : w.ReadsInside (d.withImage rows cols).rows (d.withImage rows cols).cols
      (d.withImage rows cols) outRows outCols := ⟨hreads.row_lt, hreads.col_lt⟩
  exact (conv2d_entry_inside hreads' hb hp hq hgroup hc).trans (conv2d_entry w d x y hc).symm

/-- **Group by group**: a channel of a group is computed from the group's channels. -/
theorem conv2d_single (hreads : w.ReadsInside d.rows d.cols d outRows outCols)
    (hb : b < d.batch) (hp : p < outRows) (hq : q < outCols) (hgroup : group < d.groups)
    (hc : c < d.outChannels) :
    conv2d w.unpadded d.single.image d.single.kernel 1
        (fun j => x (shiftBy [0, 0, 0, group * d.inChannels] j))
        (fun j => y (shiftBy [0, 0, 0, group * d.outChannels] j)) [b, p, q, c] =
      conv2d w.unpadded d.image d.kernel d.groups x y
        [b, p, q, group * d.outChannels + c] := by
  have hreads' : w.ReadsInside d.single.rows d.single.cols d.single outRows outCols :=
    ⟨hreads.row_lt, hreads.col_lt⟩
  have hentry := @conv2d_entry_inside R _ w d.single
    (fun j => x (shiftBy [0, 0, 0, group * d.inChannels] j))
    (fun j => y (shiftBy [0, 0, 0, group * d.outChannels] j)) outRows outCols b p q 0 c hreads' hb
    hp hq Nat.one_pos hc
  rw [Nat.zero_mul, Nat.zero_add] at hentry
  rw [conv2d_entry_inside hreads hb hp hq hgroup hc]
  refine hentry.trans ?_
  refine Finset.sum_congr rfl fun kh _ => Finset.sum_congr rfl fun kw _ =>
    Finset.sum_congr rfl fun ic _ => ?_
  simp only [shiftBy, List.zipWith_cons_cons, List.zipWith_nil_left, Nat.zero_add, Nat.zero_mul]

end Inside

/-! ## Taps -/

/-- Where an output row and column and a kernel row and column meet in the image,
if they do. -/
abbrev Taps := ℕ → ℕ → ℕ → ℕ → Option (ℕ × ℕ)

/-- The taps of a window. -/
def Window.taps (w : Window) (rows cols : ℕ) : Taps := fun p q kh kw =>
  let row := p * w.strideH + kh * w.dilationH
  let col := q * w.strideW + kw * w.dilationW
  if (w.top ≤ row ∧ row < w.top + rows) ∧ w.left ≤ col ∧ col < w.left + cols then
    some (row - w.top, col - w.left)
  else none

/-- The element of the image under a tap, zero where there is none. -/
def tapRead {R : Type*} [Zero R] (tap : Option (ℕ × ℕ)) (x : List ℕ → R) (b channel : ℕ) : R :=
  tap.elim 0 fun position => x [b, position.1, position.2, channel]

/-- The convolution along taps. -/
def tappedConv2d {R : Type*} [NonUnitalNonAssocSemiring R] (taps : Taps) (d : ConvSizes)
    (x y : List ℕ → R) (i : List ℕ) : R :=
  ∑ k ∈ box [d.kernelRows, d.kernelCols, d.inChannels],
    tapRead (taps (i.getD 1 0) (i.getD 2 0) (k.getD 0 0) (k.getD 1 0)) x (i.getD 0 0)
        (i.getD 3 0 / d.outChannels * d.inChannels + k.getD 2 0) *
      y (k ++ [i.getD 3 0])

section Taps

variable {R : Type*} [NonUnitalNonAssocSemiring R] {w : Window} {d : ConvSizes}
  {x y : List ℕ → R} {outRows outCols : ℕ}

theorem padded_eq_tapRead {b p q kh kw channel : ℕ} (hb : b < d.batch)
    (hchannel : channel < d.groups * d.inChannels) :
    w.padded d.image x [b, p * w.strideH + kh * w.dilationH, q * w.strideW + kw * w.dilationW,
        channel] = tapRead (w.taps d.rows d.cols p q kh kw) x b channel := by
  unfold tapRead Window.taps Window.padded
  dsimp only
  have hwindow : ∀ i, window [0, w.top, w.left, 0] d.image [b, p * w.strideH + kh * w.dilationH,
      q * w.strideW + kw * w.dilationW, channel] = some i ↔ InBounds i d.image ∧
        [b, p * w.strideH + kh * w.dilationH, q * w.strideW + kw * w.dilationW, channel] =
          shiftBy [0, w.top, w.left, 0] i := fun i => window_eq_some_iff rfl
  split_ifs with hin
  · obtain ⟨⟨htop, hrows⟩, hleft, hcols⟩ := hin
    refine pull_some ((hwindow _).mpr ⟨inBounds_four.mpr ⟨hb, ?_, ?_, hchannel⟩, ?_⟩)
    · omega
    · omega
    · simp only [shiftBy, List.zipWith_cons_cons, List.zipWith_nil_left, Nat.zero_add,
        Nat.add_sub_cancel' htop, Nat.add_sub_cancel' hleft]
  · refine pull_none (Option.eq_none_iff_forall_ne_some.mpr fun i hi => hin ?_)
    obtain ⟨hbound, hshift⟩ := (hwindow i).mp hi
    obtain ⟨b', p', q', c', rfl⟩ := List.length_eq_four.mp hbound.length_eq
    obtain ⟨-, hp, hq, -⟩ := inBounds_four.mp hbound
    simp only [shiftBy, List.zipWith_cons_cons, List.zipWith_nil_left, List.cons.injEq] at hshift
    omega

theorem tappedConv2d_entry (taps : Taps) {b p q group c : ℕ} (hc : c < d.outChannels) :
    tappedConv2d taps d x y [b, p, q, group * d.outChannels + c] =
      ∑ kh ∈ Finset.range d.kernelRows, ∑ kw ∈ Finset.range d.kernelCols,
        ∑ ic ∈ Finset.range d.inChannels,
          tapRead (taps p q kh kw) x b (group * d.inChannels + ic) *
            y [kh, kw, ic, group * d.outChannels + c] := by
  have hgroup : [b, p, q, group * d.outChannels + c].getD 3 0 / d.outChannels = group :=
    d.channel_div hc group
  unfold tappedConv2d
  rw [hgroup]
  exact sum_box_three d.kernelRows d.kernelCols d.inChannels _

/-- **A convolution follows the taps of its window.** -/
theorem conv2d_eq_tapped {i : List ℕ} (hi : InBounds i (d.output outRows outCols)) :
    conv2d w d.image d.kernel d.groups x y i =
      tappedConv2d (w.taps d.rows d.cols) d x y i := by
  obtain ⟨b, p, q, group, c, rfl, hb, -, -, hgroup, hc⟩ := ConvSizes.exists_position hi
  rw [conv2d_entry w d x y hc, tappedConv2d_entry _ hc]
  refine Finset.sum_congr rfl fun kh _ => Finset.sum_congr rfl fun kw _ =>
    Finset.sum_congr rfl fun ic hic => ?_
  rw [padded_eq_tapRead hb (d.channel_lt hgroup (Finset.mem_range.mp hic))]

end Taps

section Adjoint

variable {R : Type*} [CommRing R] (taps : Taps) (d : ConvSizes) (g x y : List ℕ → R)
  (outRows outCols : ℕ)

/-- What one tap of one output position contributes to the inner product of a
convolution with a gradient, by batch and channels. -/
def tapTerm (group kh kw p q ic : ℕ) (position : ℕ × ℕ) : R :=
  ∑ b ∈ Finset.range d.batch, ∑ c ∈ Finset.range d.outChannels,
    g [b, p, q, group * d.outChannels + c] *
      (x [b, position.1, position.2, group * d.inChannels + ic] *
        y [kh, kw, ic, group * d.outChannels + c])

/-- The axes of the output, the groups and the kernel, tap by tap. -/
theorem inverseAxes_taps :
    InverseAxes 8 [3, 5, 6, 1, 2, 7, 0, 4] [6, 3, 4, 0, 7, 1, 2, 5] :=
  ⟨by decide, rfl, by decide⟩

/-- **The inner product of a convolution with a gradient, tap by tap.** -/
theorem inner_tappedConv2d :
    inner (d.output outRows outCols) g (tappedConv2d taps d x y) =
      ∑ group ∈ Finset.range d.groups, ∑ kh ∈ Finset.range d.kernelRows,
        ∑ kw ∈ Finset.range d.kernelCols, ∑ p ∈ Finset.range outRows,
          ∑ q ∈ Finset.range outCols, (taps p q kh kw).elim 0 fun position =>
            ∑ ic ∈ Finset.range d.inChannels, tapTerm d g x y group kh kw p q ic position := by
  let F : List ℕ → R := fun j =>
    g [j.getD 0 0, j.getD 1 0, j.getD 2 0, j.getD 3 0 * d.outChannels + j.getD 4 0] *
      (tapRead (taps (j.getD 1 0) (j.getD 2 0) (j.getD 5 0) (j.getD 6 0)) x (j.getD 0 0)
          (j.getD 3 0 * d.inChannels + j.getD 7 0) *
        y [j.getD 5 0, j.getD 6 0, j.getD 7 0, j.getD 3 0 * d.outChannels + j.getD 4 0])
  have hterm : ∀ group kh kw p q, ((taps p q kh kw).elim 0 fun position =>
      ∑ ic ∈ Finset.range d.inChannels, tapTerm d g x y group kh kw p q ic position) =
        ∑ ic ∈ Finset.range d.inChannels, ∑ b ∈ Finset.range d.batch,
          ∑ c ∈ Finset.range d.outChannels, F [b, p, q, group, c, kh, kw, ic] := by
    intro group kh kw p q
    have hF : ∀ ic b c, F [b, p, q, group, c, kh, kw, ic] =
        g [b, p, q, group * d.outChannels + c] *
          (tapRead (taps p q kh kw) x b (group * d.inChannels + ic) *
            y [kh, kw, ic, group * d.outChannels + c]) := fun _ _ _ => rfl
    simp only [hF]
    cases taps p q kh kw with
    | none =>
        simp only [tapRead, Option.elim_none, zero_mul, mul_zero, Finset.sum_const_zero]
    | some position => rfl
  -- one sum over all eight axes, first in the order of the output
  calc inner (d.output outRows outCols) g (tappedConv2d taps d x y)
      = ∑ j ∈ box [d.batch, outRows, outCols, d.groups, d.outChannels, d.kernelRows,
          d.kernelCols, d.inChannels], F j := by
        unfold inner ConvSizes.output
        simp only [sum_box_cons, sum_box_nil, sum_range_mul]
        refine Finset.sum_congr rfl fun b _ => Finset.sum_congr rfl fun p _ =>
          Finset.sum_congr rfl fun q _ => Finset.sum_congr rfl fun group _ =>
            Finset.sum_congr rfl fun c hc => ?_
        rw [tappedConv2d_entry taps (Finset.mem_range.mp hc)]
        simp only [Finset.mul_sum]
        rfl
    _ = ∑ j ∈ box [d.groups, d.kernelRows, d.kernelCols, outRows, outCols, d.inChannels, d.batch,
          d.outChannels], F (permutePosition [3, 5, 6, 1, 2, 7, 0, 4] j) :=
        (inverseAxes_taps.sum_box_permutePosition rfl F).symm
    _ = _ := by
        simp only [hterm, sum_box_cons, sum_box_nil]
        rfl

end Adjoint

end Arrays
