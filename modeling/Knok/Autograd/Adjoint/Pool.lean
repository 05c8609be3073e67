import Mathlib
import Knok.Lowering.Pool
import Knok.Autograd.Adjoint.Conv
import Knok.Autograd.Adjoint.Reduction
import Knok.Autograd.Adjoint.Selection

/-!
# Gradients of pooling

Both rules loop over output positions and window positions and pad what one window
sends to one entry of the image, unless the entry lies in the padding.  What arrives
is `pooledBack` (`evaluates_poolPieces`).  `avg_pool2d` sends equal shares, which makes its
gradient the adjoint of averaging (`avgPool2d_averages`); what `max_pool2d` sends is in
`Knok.Autograd.Adjoint.Extreme`.

### Design decisions

* **Shared taps.**  The rule computes the positions under a window on words, as the
  rule of `conv2d` does, so what is known of those taps is used again.
-/

namespace Knok.Autograd

open Arrays Control

universe u

/-! ## The pieces of the loop -/

/-- The rounds of the loop that add a piece: an output position and an entry of the
image. -/
def poolItems (options : Pool2dOptions) (rows cols outRows outCols : ℕ) :
    List (ℕ × ℕ × ℕ × ℕ) :=
  (List.range outRows).flatMap fun oh => (List.range outCols).flatMap fun ow =>
    (List.range options.kernel.1).flatMap fun kh => (List.range options.kernel.2).flatMap fun kw =>
      ((wordTaps options.asConv rows cols oh ow kh kw).map fun position =>
        (oh, ow, position.1, position.2)).toList

section Items

variable {options : Pool2dOptions} {elem : ElementType} {d : ImageSizes} {outRows outCols : ℕ}

/-- The pieces, listed by their rounds. -/
theorem poolPieces_eq (piece : ℕ → ℕ → ℕ → ℕ → Expr) :
    poolPieces ⟨elem, d.image⟩ ⟨elem, d.output outRows outCols⟩ options piece =
      (poolItems options d.rows d.cols outRows outCols).map fun item =>
        piece item.1 item.2.1 item.2.2.1 item.2.2.2 := by
  unfold poolPieces poolItems
  have houtRows : (⟨elem, d.output outRows outCols⟩ : TensorType).dim 1 = outRows := rfl
  have houtCols : (⟨elem, d.output outRows outCols⟩ : TensorType).dim 2 = outCols := rfl
  have hrows : (⟨elem, d.image⟩ : TensorType).dim 1 = d.rows := rfl
  have hcols : (⟨elem, d.image⟩ : TensorType).dim 2 = d.cols := rfl
  simp only [List.map_flatMap, List.filterMap_eq_flatMap_toList]
  rw [houtRows, houtCols, hrows, hcols]
  refine List.flatMap_congr fun oh _ => List.flatMap_congr fun ow _ =>
    List.flatMap_congr fun kh _ => List.flatMap_congr fun kw _ => ?_
  unfold wordTaps
  rw [show convInputPosition options.asConv = poolInputPosition options from rfl]
  cases poolInputPosition options oh ow kh kw with
  | none => rfl
  | some position =>
      obtain ⟨ih, iw⟩ := position
      dsimp only
      by_cases hinside : ih < d.rows ∧ iw < d.cols
      · rw [if_neg (by omega), Option.filter_some, if_pos (decide_eq_true hinside)]
        rfl
      · rw [if_pos (by omega), Option.filter_some, if_neg (by simpa using hinside)]
        rfl

/-- A piece is sent from an output position to an entry of the image. -/
theorem of_mem_poolItems {item : ℕ × ℕ × ℕ × ℕ}
    (h : item ∈ poolItems options d.rows d.cols outRows outCols) :
    item.1 < outRows ∧ item.2.1 < outCols ∧ item.2.2.1 < d.rows ∧ item.2.2.2 < d.cols := by
  unfold poolItems at h
  simp only [List.mem_flatMap, List.mem_range, Option.mem_toList,
    Option.map_eq_some_iff] at h
  obtain ⟨oh, hoh, ow, how, kh, -, kw, -, position, htap, rfl⟩ := h
  obtain ⟨-, hinside⟩ := Option.filter_eq_some_iff.mp htap
  obtain ⟨hrow, hcol⟩ := of_decide_eq_true hinside
  exact ⟨hoh, how, hrow, hcol⟩

/-- A sum over the rounds, loop by loop. -/
theorem sum_poolItems {M : Type*} [AddCommMonoid M] (v : ℕ × ℕ × ℕ × ℕ → M) :
    ((poolItems options d.rows d.cols outRows outCols).map v).sum =
      ∑ p ∈ Finset.range outRows, ∑ q ∈ Finset.range outCols,
        ∑ kh ∈ Finset.range options.kernel.1, ∑ kw ∈ Finset.range options.kernel.2,
          (wordTaps options.asConv d.rows d.cols p q kh kw).elim 0 fun position =>
            v (p, q, position.1, position.2) := by
  unfold poolItems
  simp only [sum_map_flatMap_range]
  refine Finset.sum_congr rfl fun p _ => Finset.sum_congr rfl fun q _ =>
    Finset.sum_congr rfl fun kh _ => Finset.sum_congr rfl fun kw _ => ?_
  cases wordTaps options.asConv d.rows d.cols p q kh kw with
  | none => rfl
  | some position => exact List.sum_singleton

end Items

/-! ## What arrives -/

section Arrives

variable {R : Type u} [CommRing R] {A : Arithmetic R} {calls : Calls (Tensor R)}
  {values : Env (Tensor R)} {options : Pool2dOptions} {inputTy ty : TensorType} {input : Expr}
  {elem : ElementType} {d : ImageSizes} {outRows outCols : ℕ} {x : List ℕ → R}

/-- Where the extents are words, the taps that the rule computes are those of the
window. -/
theorem wordTaps_eq_of_extentsFit (h : Pool2dTypes inputTy ty options elem d)
    (hfit : options.ExtentsFit d) {p q kh kw : ℕ} (hp : p < ty.dim 1) (hq : q < ty.dim 2)
    (hkh : kh < options.kernel.1) (hkw : kw < options.kernel.2) :
    wordTaps options.asConv d.rows d.cols p q kh kw =
      options.window.taps d.rows d.cols p q kh kw := by
  obtain ⟨hrow, hcol⟩ := h.reads_lt hfit hp hq hkh hkw
  have hpaddedRows := hfit.padded_rows
  have hpaddedCols := hfit.padded_cols
  have hrow' : (p * options.stride.1 + kh * options.dilation.1) % 2 ^ 64 = _ :=
    Nat.mod_eq_of_lt (hrow.trans hpaddedRows)
  have hcol' : (q * options.stride.2 + kw * options.dilation.2) % 2 ^ 64 = _ :=
    Nat.mod_eq_of_lt (hcol.trans hpaddedCols)
  apply wordTaps_eq_taps
  · omega
  · omega
  · show Covers options.asConv d.rows d.cols
        ((p * options.stride.1 + kh * options.dilation.1) % 2 ^ 64)
        ((q * options.stride.2 + kw * options.dilation.2) % 2 ^ 64) ↔ _
    rw [hrow', hcol']
    exact Iff.rfl

/-- One position of an array, padded into the image: its entries arrive at the
position, and nothing arrives elsewhere. -/
theorem pull_unit_entry {ih iw b r s c : ℕ} (hb : b < d.batch) (hc : c < d.channels)
    (e : List ℕ → R) :
    pull (window [0, ih, iw, 0] [d.batch, 1, 1, d.channels]) e [b, r, s, c] =
      if (ih, iw) = (r, s) then e [b, 0, 0, c] else 0 := by
  have hwindow : ∀ i, window [0, ih, iw, 0] [d.batch, 1, 1, d.channels] [b, r, s, c] = some i ↔
      InBounds i [d.batch, 1, 1, d.channels] ∧ [b, r, s, c] = shiftBy [0, ih, iw, 0] i :=
    fun i => window_eq_some_iff rfl
  split_ifs with hposition
  · obtain ⟨rfl, rfl⟩ := Prod.mk.inj hposition
    refine pull_some ((hwindow _).mpr
      ⟨inBounds_four.mpr ⟨hb, Nat.one_pos, Nat.one_pos, hc⟩, ?_⟩)
    simp only [shiftBy, List.zipWith_cons_cons, List.zipWith_nil_left, Nat.zero_add, Nat.add_zero]
  · refine pull_none (Option.eq_none_iff_forall_ne_some.mpr fun i hi => hposition ?_)
    obtain ⟨hbound, hshift⟩ := (hwindow i).mp hi
    obtain ⟨b', c', rfl, -, -⟩ := exists_unitPosition hbound
    simp only [shiftBy, List.zipWith_cons_cons, List.zipWith_nil_left, List.cons.injEq] at hshift
    obtain ⟨-, hr, hs, -⟩ := hshift
    rw [hr, hs, Nat.add_zero, Nat.add_zero]

/-- **What arrives from all windows**, when `unit oh ow ih iw` is what the window at
`(oh, ow)` sends to the entries at `(ih, iw)`. -/
theorem evaluates_poolPieces {unit : ℕ → ℕ → ℕ → ℕ → Expr} {e : ℕ → ℕ → ℕ → ℕ → List ℕ → R}
    (h : Pool2dTypes ⟨elem, d.image⟩ ty options elem d) (hfit : options.ExtentsFit d)
    (hty : ty = ⟨elem, d.output outRows outCols⟩) (himage : UsizeDims d.image)
    (hx : Evaluates A calls values input ⟨elem, d.image⟩ x)
    (hunit : ∀ oh < outRows, ∀ ow < outCols, ∀ ih < d.rows, ∀ iw < d.cols,
      Evaluates A calls values (unit oh ow ih iw) ⟨elem, [d.batch, 1, 1, d.channels]⟩
        (e oh ow ih iw)) :
    Evaluates A calls values
      ((sumPieces (poolPieces ⟨elem, d.image⟩ ty options fun oh ow ih iw =>
        padPoolUnitToInput (unit oh ow ih iw) ⟨elem, d.image⟩ ih iw)).getD (zerosLike input))
      ⟨elem, d.image⟩
      (pooledBack options.window d.image options.kernelShape ty.shape fun i j =>
        e (i.getD 1 0) (i.getD 2 0) (j.getD 1 0) (j.getD 2 0) [i.getD 0 0, 0, 0, i.getD 3 0]) := by
  subst hty
  rw [poolPieces_eq]
  have hpieces : ∀ item ∈ poolItems options d.rows d.cols outRows outCols,
      Evaluates A calls values
        (padPoolUnitToInput (unit item.1 item.2.1 item.2.2.1 item.2.2.2) ⟨elem, d.image⟩
          item.2.2.1 item.2.2.2) ⟨elem, d.image⟩
        (pull (window [0, item.2.2.1, item.2.2.2, 0] [d.batch, 1, 1, d.channels])
          (e item.1 item.2.1 item.2.2.1 item.2.2.2)) := by
    intro item hitem
    obtain ⟨hoh, how, hih, hiw⟩ := of_mem_poolItems hitem
    exact (hunit _ hoh _ how _ hih _ hiw).pad
      (windowFits_four.mpr ⟨(Nat.zero_add _).le, hih, hiw, (Nat.zero_add _).le⟩) himage
  refine (evaluates_sumPieces_getD h.numeric hx hpieces).congr fun j hj => ?_
  obtain ⟨b, r, s, c, rfl, hb, -, -, hc⟩ := d.exists_position hj
  have hback := @pooledBack_entry R _ options.window d.batch d.rows d.cols d.channels
    options.kernel.1 options.kernel.2 outRows outCols b r s c hb hc fun i j =>
      e (i.getD 1 0) (i.getD 2 0) (j.getD 1 0) (j.getD 2 0) [i.getD 0 0, 0, 0, i.getD 3 0]
  refine Eq.trans ?_ hback.symm
  rw [sum_poolItems]
  refine Finset.sum_congr rfl fun p hp => Finset.sum_congr rfl fun q hq =>
    Finset.sum_congr rfl fun kh hkh => Finset.sum_congr rfl fun kw hkw => ?_
  rw [wordTaps_eq_of_extentsFit h hfit (Finset.mem_range.mp hp) (Finset.mem_range.mp hq)
    (Finset.mem_range.mp hkh) (Finset.mem_range.mp hkw)]
  cases options.window.taps d.rows d.cols p q kh kw with
  | none => rfl
  | some position =>
      rw [Option.elim_some, pull_unit_entry hb hc]
      by_cases hposition : position = (r, s)
      · rw [if_pos hposition, if_pos (congrArg some hposition), hposition]
        rfl
      · rw [if_neg hposition, if_neg fun heq => hposition (Option.some.inj heq)]

/-- One position of a pooled value. -/
theorem evaluates_poolOutputUnit {output : Expr} {g : List ℕ → R} {oh ow : ℕ}
    (hdims : UsizeDims (d.output outRows outCols)) (hoh : oh < outRows) (how : ow < outCols)
    (hg : Evaluates A calls values output ⟨elem, d.output outRows outCols⟩ g) :
    Evaluates A calls values (poolOutputUnit output ⟨elem, d.output outRows outCols⟩ oh ow)
      ⟨elem, [d.batch, 1, 1, d.channels]⟩ fun i => g [i.getD 0 0, oh, ow, i.getD 3 0] := by
  have hfits : WindowFits [0, oh, ow, 0] [d.batch, 1, 1, d.channels] (d.output outRows outCols) :=
    windowFits_four.mpr ⟨(Nat.zero_add _).le, hoh, how, (Nat.zero_add _).le⟩
  refine (hg.slice hfits hdims).congr fun i hi => ?_
  obtain ⟨b, c, rfl, -, -⟩ := exists_unitPosition hi
  simp only [shiftBy, List.zipWith_cons_cons, List.zipWith_nil_left, Nat.zero_add, Nat.add_zero,
    List.getD_cons_zero, List.getD_cons_succ]

end Arrives

/-! ## Averages -/

section Averages

variable {K : Type u} [Field K] {less equal : K → K → Bool} {options : Pool2dOptions}
  {inputTy ty : TensorType} {elem : ElementType} {d : ImageSizes}
  {env : String → Option TensorType} {node : Node} {input grad : Expr}
  {calls : Calls (Tensor (Entry K))} {values : Env (Tensor (Entry K))} {g x : List ℕ → Entry K}

/-- The numbers that arrive. -/
theorem fst_pooledBack (w : Window) (image kernel out : List ℕ) (m : List ℕ → List ℕ → Entry K)
    (j : List ℕ) :
    (pooledBack w image kernel out m j).1 = pooledBack w image kernel out (fun i j => (m i j).1) j := by
  unfold pooledBack
  rw [Prod.fst_sum]
  refine Finset.sum_congr rfl fun i _ => ?_
  rw [Prod.fst_sum]
  exact Finset.sum_congr rfl fun k _ => apply_ite Prod.fst _ _ _

/-- **The rule of `avg_pool2d` sends equal shares.** -/
theorem avgPool2d_gradient (h : Pool2dTypes inputTy ty options elem d)
    (hfit : options.ExtentsFit d) (hcount : options.kernel.1 * options.kernel.2 < 2 ^ 64)
    (hok : inferCallResults (.avgPool2d options) [inputTy] = .ok [ty])
    (hfloat : elem.isFloat = true) (hdims : UsizeDims inputTy.shape) (hnode : node.ty = ty)
    (hinput : exprTy env input = .ok inputTy)
    (hg : Evaluates (Numbers.ofField less equal).arithmetic calls values grad ty g)
    (hx : Evaluates (Numbers.ofField less equal).arithmetic calls values input inputTy x) :
    ∃ (gx : Expr) (a : List ℕ → Entry K),
      reverseCall env node (.avgPool2d options) [input] grad = .ok [(input, gx)] ∧
      Evaluates (Numbers.ofField less equal).arithmetic calls values gx inputTy a ∧
      ∀ j, InBounds j inputTy.shape → (a j).1 = pooledBack options.window inputTy.shape
        options.kernelShape ty.shape
        (fun i _ => (g i).1 / (options.kernelShape.prod : ℕ)) j := by
  have htyDims := h.usizeDims hdims
  have hresult : node.ty.elem.isFloat = true := by
    rw [hnode, h.ty_eq]
    exact hfloat
  have hstops : callStopsGradient (.avgPool2d options) node.ty = false := by
    show (!node.ty.elem.isFloat || false) = false
    rw [hresult]
    rfl
  have hsingle : singleCallType (.avgPool2d options) [inputTy] = .ok ty := by
    unfold singleCallType
    rw [hok]
    rfl
  have hprod : options.kernelShape.prod = usizeMul options.kernel.1 options.kernel.2 := by
    rw [usizeMul_of_lt hcount]
    simp [Pool2dOptions.kernelShape]
  obtain ⟨outRows, outCols, hty⟩ : ∃ outRows outCols,
      ty = ⟨elem, d.output outRows outCols⟩ := ⟨_, _, h.ty_eq⟩
  obtain rfl := h.input_ty
  subst hty
  -- every window divides its gradient
  have hunits : ∀ oh ow, ∃ z : List ℕ → Entry K, oh < outRows → ow < outCols →
      Evaluates (Numbers.ofField less equal).arithmetic calls values
        (binary .div (poolOutputUnit grad ⟨elem, d.output outRows outCols⟩ oh ow)
          (scalar (floatText (usizeMul options.kernel.1 options.kernel.2)) elem))
        ⟨elem, [d.batch, 1, 1, d.channels]⟩ z ∧
      ∀ i, (z i).1 = (g [i.getD 0 0, oh, ow, i.getD 3 0]).1 / (options.kernelShape.prod : ℕ) := by
    intro oh ow
    by_cases hin : oh < outRows ∧ ow < outCols
    · obtain ⟨z, hz, hquotient⟩ := evaluates_divCount hfloat
        (usizeMul options.kernel.1 options.kernel.2) (evaluates_poolOutputUnit htyDims hin.1 hin.2 hg)
      exact ⟨z, fun _ _ => ⟨hz, hprod ▸ hquotient⟩⟩
    · exact ⟨fun _ => 0, fun hoh how => absurd ⟨hoh, how⟩ hin⟩
  choose z hz using hunits
  have hsum := evaluates_poolPieces h hfit rfl hdims hx
    fun oh hoh ow how ih _ iw _ => (hz oh ow hoh how).1
  refine ⟨_, _, ?_, hsum, fun j hj => ?_⟩
  · simp only [reverseCall, hstops]
    show (exprTy env input).bind _ = _
    rw [hinput]
    show (singleCallType (.avgPool2d options) [⟨elem, d.image⟩]).bind _ = _
    rw [hsingle]
    rfl
  · rw [fst_pooledBack]
    refine Finset.sum_congr rfl fun i hi => Finset.sum_congr rfl fun k _ => ?_
    obtain ⟨b, p, q, c, rfl, -, hp, hq, -⟩ := d.exists_position (mem_box.mp hi)
    exact if_congr Iff.rfl ((hz p q hp hq).2 _) rfl

end Averages

/-- The rule of `avg_pool2d` emits the adjoint of averaging, over every field of
characteristic zero. -/
def AvgPool2dGradientExact (options : Pool2dOptions) (inputTy ty : TensorType) : Prop :=
  ∀ (K : Type u) [Field K] [CharZero K] (less equal : K → K → Bool)
    (env : String → Option TensorType) (node : Node) (input : Expr), node.ty = ty →
    exprTy env input = .ok inputTy →
    ∀ (calls : Calls (Tensor (Entry K))) (values : Env (Tensor (Entry K))) (grad : Expr)
      (g x : List ℕ → Entry K),
      Evaluates (Numbers.ofField less equal).arithmetic calls values grad ty g →
      Evaluates (Numbers.ofField less equal).arithmetic calls values input inputTy x →
      ∃ (gx : Expr) (a : List ℕ → Entry K),
        reverseCall env node (.avgPool2d options) [input] grad = .ok [(input, gx)] ∧
        Evaluates (Numbers.ofField less equal).arithmetic calls values gx inputTy a ∧
        ∀ v, inner ty.shape (fun i => (g i).1)
            (avgPool2d options.window inputTy.shape options.kernelShape v) =
          inner inputTy.shape (fun j => (a j).1) v

/-- **`avg_pool2d` and its gradient are averaging and its adjoint.**  Where no extent and
no count wraps, the taps lie in the padded image and the rule emits the adjoint; where
the sizes also fit signed attributes, the lowering averages over full windows. -/
theorem avgPool2d_averages {options : Pool2dOptions} {inputTy ty : TensorType}
    (hok : inferCallResults (.avgPool2d options) [inputTy] = .ok [ty])
    (hdims : UsizeDims inputTy.shape) (hfit : options.ExtentsFit inputTy.imageSizes)
    (hcount : options.kernel.1 * options.kernel.2 < 2 ^ 64) :
    PoolReadsInside options inputTy ty ∧
      (Lowering.PoolTypesFit options inputTy →
        ∀ (K : Type) [Field K] (input : Lowering.Value K) (x : List ℕ → K), input.ty = inputTy →
          input.Holds x → Lowering.Lowers (Lowering.avgPool2d input options) ty
            (avgPool2d options.window inputTy.shape options.kernelShape x)) ∧
      AvgPool2dGradientExact.{u} options inputTy ty := by
  obtain ⟨elem, d, h, hfloat⟩ := Pool2dTypes.of_avgPool2d hok
  have hfit' : options.ExtentsFit d := by rwa [h.imageSizes_eq] at hfit
  refine ⟨h.readsInside hfit, ?_, ?_⟩
  · rintro hfits K _ input x rfl hx
    exact Lowering.avgPool2d_lowers hok hfits hcount hx
  · intro K _ _ less equal env node input hnode hinput calls values grad g x hg hx
    obtain ⟨gx, a, hreverse, hgx, ha⟩ :=
      avgPool2d_gradient h hfit' hcount hok hfloat hdims hnode hinput hg hx
    have hrank : inputTy.shape.length = 4 := by
      rw [h.input_ty]
      rfl
    refine ⟨gx, a, hreverse, hgx, fun v => (inner_avgPool2d hrank _ _ _ v).trans ?_⟩
    exact inner_congr (fun j hj => (ha j hj).symm) fun _ _ => rfl

/-- A window of two rows and columns, over an image that is padded above and on the left. -/
def cornerOptions : Pool2dOptions := ⟨(2, 2), ⟨1, 0, 1, 0⟩, (2, 1), (1, 1)⟩

theorem avgPool2d_averages_corner :
    PoolReadsInside cornerOptions ⟨.f32, [1, 3, 2, 1]⟩ ⟨.f32, [1, 2, 2, 1]⟩ ∧
      (Lowering.PoolTypesFit cornerOptions ⟨.f32, [1, 3, 2, 1]⟩ →
        ∀ (K : Type) [Field K] (input : Lowering.Value K) (x : List ℕ → K),
          input.ty = ⟨.f32, [1, 3, 2, 1]⟩ → input.Holds x →
            Lowering.Lowers (Lowering.avgPool2d input cornerOptions) ⟨.f32, [1, 2, 2, 1]⟩
              (avgPool2d cornerOptions.window [1, 3, 2, 1] cornerOptions.kernelShape x)) ∧
      AvgPool2dGradientExact.{0} cornerOptions ⟨.f32, [1, 3, 2, 1]⟩ ⟨.f32, [1, 2, 2, 1]⟩ :=
  avgPool2d_averages rfl (by decide) ⟨by decide, by decide, by decide, by decide⟩ (by decide)

/-- The type rule accepts a stride that no index attribute holds; the lowering fails. -/
theorem not_lowers_avgPool2d_wide :
    inferCallResults (.avgPool2d Lowering.wideStride) [⟨.f32, [1, 1, 1, 1]⟩] =
        .ok [⟨.f32, [1, 1, 1, 1]⟩] ∧
      ∀ (K : Type) [Field K] (input : Lowering.Value K) (y : List ℕ → K),
        input.ty = ⟨.f32, [1, 1, 1, 1]⟩ →
          ¬ Lowering.Lowers (Lowering.avgPool2d input Lowering.wideStride) ⟨.f32, [1, 1, 1, 1]⟩ y := by
  refine ⟨by decide, ?_⟩
  rintro K _ input y - ⟨value, hvalue, -, -⟩
  unfold Lowering.avgPool2d at hvalue
  simp only [except_bind_eq_ok_iff] at hvalue
  obtain ⟨padded, -, ty, -, hemit⟩ := hvalue
  exact Lowering.emitPool2dGeneric_wide_ne_ok _ hemit

end Knok.Autograd
