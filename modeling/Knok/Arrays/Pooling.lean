import Mathlib
import Knok.Arrays.Convolution
import Knok.Arrays.Extreme

/-!
# Pooling

A window slides over an image whose axes are batch, row, column and channel.  Every
position of the result stands for the entries of the image under the window there;
what lies over the border is padding.

### Main definitions

* `Window.source` is the entry of the image under one position of the window.
* `avgPool2d` averages, with zeros for padding.
* `IsMaximum` is what a maximum of entries has to be when some of them may be no
  numbers and padding must not be seen.
* `pooledBack` sends something of every window back to the entries under it, and
  `windowsOver` are the windows over an entry.
-/

namespace Arrays

namespace Window

variable (w : Window)

/-- The position of the padded image that the window of a result position has at a
kernel position. -/
def poolPosition (i k : List ℕ) : List ℕ :=
  [i.getD 0 0, i.getD 1 0 * w.strideH + k.getD 0 0 * w.dilationH,
    i.getD 2 0 * w.strideW + k.getD 1 0 * w.dilationW, i.getD 3 0]

/-- The position of the image there; padding has none. -/
def source (image k : List ℕ) : IndexMap := fun i =>
  window [0, w.top, w.left, 0] image (w.poolPosition i k)

/-- The positions of the image under the window of a result position, in the order
of the kernel. -/
def covered (image kernel i : List ℕ) : List (List ℕ) :=
  (positions kernel).filterMap fun k => w.source image k i

variable {w}

/-- **The entries under a window are those of its taps.** -/
theorem source_eq_taps {batch rows cols channels b p q kh kw c : ℕ} (hb : b < batch)
    (hc : c < channels) :
    w.source [batch, rows, cols, channels] [kh, kw] [b, p, q, c] =
      (w.taps rows cols p q kh kw).map fun position => [b, position.1, position.2, c] := by
  have hwindow : ∀ i, w.source [batch, rows, cols, channels] [kh, kw] [b, p, q, c] = some i ↔
      InBounds i [batch, rows, cols, channels] ∧ [b, p * w.strideH + kh * w.dilationH,
        q * w.strideW + kw * w.dilationW, c] = shiftBy [0, w.top, w.left, 0] i :=
    fun i => window_eq_some_iff rfl
  unfold taps
  dsimp only
  split_ifs with hin
  · obtain ⟨⟨htop, hrows⟩, hleft, hcols⟩ := hin
    refine (hwindow _).mpr ⟨inBounds_four.mpr ⟨hb, ?_, ?_, hc⟩, ?_⟩
    · dsimp only
      omega
    · dsimp only
      omega
    · simp only [shiftBy, List.zipWith_cons_cons, List.zipWith_nil_left, Nat.zero_add,
        Nat.add_sub_cancel' htop, Nat.add_sub_cancel' hleft]
  · refine Option.eq_none_iff_forall_ne_some.mpr fun i hi => hin ?_
    obtain ⟨hbound, hshift⟩ := (hwindow i).mp hi
    obtain ⟨b', p', q', c', rfl⟩ := List.length_eq_four.mp hbound.length_eq
    obtain ⟨-, hp, hq, -⟩ := inBounds_four.mp hbound
    simp only [shiftBy, List.zipWith_cons_cons, List.zipWith_nil_left, List.cons.injEq] at hshift
    omega

/-- What lies under a window is part of the image. -/
theorem mapsBox_source {image k : List ℕ} (s : List ℕ) (hrank : image.length = 4) :
    MapsBox s image (w.source image k) := by
  intro i _ j hj
  exact ((window_eq_some_iff (show [0, w.top, w.left, 0].length = image.length from
    hrank.symm)).mp hj).1

end Window

/-! ## Averages -/

section Average

variable {K : Type*} [Field K]

/-- The average of the entries under a window, counting padding as zeros. -/
def avgPool2d (w : Window) (image kernel : List ℕ) (x : List ℕ → K) (i : List ℕ) : K :=
  (∑ k ∈ box kernel, pull (w.source image k) x i) / (kernel.prod : ℕ)

end Average

/-- What every window sends back to an entry under it, added up. -/
def pooledBack {R : Type*} [AddCommMonoid R] (w : Window) (image kernel out : List ℕ)
    (m : List ℕ → List ℕ → R) (j : List ℕ) : R :=
  ∑ i ∈ box out, ∑ k ∈ box kernel, if w.source image k i = some j then m i j else 0

/-- What arrives at one entry, tap by tap. -/
theorem pooledBack_entry {R : Type*} [AddCommMonoid R] {w : Window}
    {batch rows cols channels kernelRows kernelCols outRows outCols b r s c : ℕ} (hb : b < batch)
    (hc : c < channels) (m : List ℕ → List ℕ → R) :
    pooledBack w [batch, rows, cols, channels] [kernelRows, kernelCols]
        [batch, outRows, outCols, channels] m [b, r, s, c] =
      ∑ p ∈ Finset.range outRows, ∑ q ∈ Finset.range outCols, ∑ kh ∈ Finset.range kernelRows,
        ∑ kw ∈ Finset.range kernelCols,
          if w.taps rows cols p q kh kw = some (r, s) then m [b, p, q, c] [b, r, s, c] else 0 := by
  have hsource : ∀ b' p q c' kh kw, b' < batch → c' < channels →
      (w.source [batch, rows, cols, channels] [kh, kw] [b', p, q, c'] = some [b, r, s, c] ↔
        b' = b ∧ c' = c ∧ w.taps rows cols p q kh kw = some (r, s)) := by
    intro b' p q c' kh kw hb' hc'
    rw [Window.source_eq_taps hb' hc', Option.map_eq_some_iff]
    constructor
    · rintro ⟨⟨r', s'⟩, htap, heq⟩
      simp only [List.cons.injEq, and_true] at heq
      obtain ⟨rfl, rfl, rfl, rfl⟩ := heq
      exact ⟨rfl, rfl, htap⟩
    · rintro ⟨rfl, rfl, htap⟩
      exact ⟨(r, s), htap, rfl⟩
  unfold pooledBack
  simp only [sum_box_cons, sum_box_nil]
  rw [Finset.sum_eq_single_of_mem b (Finset.mem_range.mpr hb)]
  · refine Finset.sum_congr rfl fun p _ => Finset.sum_congr rfl fun q _ => ?_
    rw [Finset.sum_eq_single_of_mem c (Finset.mem_range.mpr hc)]
    · refine Finset.sum_congr rfl fun kh _ => Finset.sum_congr rfl fun kw _ => ?_
      exact if_congr ((hsource b p q c kh kw hb hc).trans (by simp)) rfl rfl
    · intro c' hc' hne
      refine Finset.sum_eq_zero fun kh _ => Finset.sum_eq_zero fun kw _ => if_neg fun h => ?_
      exact hne ((hsource b p q c' kh kw hb (Finset.mem_range.mp hc')).mp h).2.1
  · intro b' hb' hne
    refine Finset.sum_eq_zero fun p _ => Finset.sum_eq_zero fun q _ =>
      Finset.sum_eq_zero fun c' hc' => Finset.sum_eq_zero fun kh _ => Finset.sum_eq_zero fun kw _ =>
        if_neg fun h => ?_
    exact hne ((hsource b' p q c' kh kw (Finset.mem_range.mp hb') (Finset.mem_range.mp hc')).mp h).1

/-! ### Windows over an entry -/

/-- The result positions whose windows contain an entry of the image. -/
def windowsOver (w : Window) (image kernel out j : List ℕ) : Finset (List ℕ) :=
  {i ∈ box out | ∃ k ∈ box kernel, w.source image k i = some j}

/-- Entries of a window belong to its batch and its channel. -/
theorem Window.getD_of_source {w : Window} {image k i j : List ℕ} (hrank : image.length = 4)
    (h : w.source image k i = some j) : i.getD 0 0 = j.getD 0 0 ∧ i.getD 3 0 = j.getD 3 0 := by
  obtain ⟨hj, hshift⟩ :=
    (window_eq_some_iff (show [0, w.top, w.left, 0].length = image.length from hrank.symm)).mp h
  obtain ⟨b, r, s, c, rfl⟩ := List.length_eq_four.mp (hj.length_eq.trans hrank)
  simp only [Window.poolPosition, shiftBy, List.zipWith_cons_cons, List.zipWith_nil_left,
    Nat.zero_add, List.cons.injEq, and_true] at hshift
  exact ⟨hshift.1, hshift.2.2.2⟩

/-- A dilated window covers an entry at one kernel position at most. -/
theorem Window.source_inj {w : Window} (hdilation : 0 < w.dilationH ∧ 0 < w.dilationW)
    {image k k' i j : List ℕ} (hrank : image.length = 4) (hk : k.length = 2) (hk' : k'.length = 2)
    (h : w.source image k i = some j) (h' : w.source image k' i = some j) : k = k' := by
  have hlen : [0, w.top, w.left, 0].length = image.length := hrank.symm
  have hsame : w.poolPosition i k = w.poolPosition i k' :=
    ((window_eq_some_iff hlen).mp h).2.trans ((window_eq_some_iff hlen).mp h').2.symm
  obtain ⟨a, b, rfl⟩ := List.length_eq_two.mp hk
  obtain ⟨a', b', rfl⟩ := List.length_eq_two.mp hk'
  simp only [Window.poolPosition, List.getD_cons_zero, List.getD_cons_succ, List.cons.injEq,
    and_true, true_and, Nat.add_left_cancel_iff] at hsame
  rw [Nat.eq_of_mul_eq_mul_right hdilation.1 hsame.1,
    Nat.eq_of_mul_eq_mul_right hdilation.2 hsame.2]

/-- **Every window over an entry sends to it once.** -/
theorem pooledBack_eq_windowsOver {R : Type*} [AddCommMonoid R] {w : Window}
    (hdilation : 0 < w.dilationH ∧ 0 < w.dilationW) {image kernel : List ℕ}
    (hrank : image.length = 4) (hkernel : kernel.length = 2) (out : List ℕ)
    (m : List ℕ → List ℕ → R) (j : List ℕ) :
    pooledBack w image kernel out m j = ∑ i ∈ windowsOver w image kernel out j, m i j := by
  unfold pooledBack windowsOver
  rw [Finset.sum_filter]
  refine Finset.sum_congr rfl fun i _ => ?_
  have hlength : ∀ k ∈ box kernel, k.length = 2 := fun k hk =>
    (mem_box.mp hk).length_eq.trans hkernel
  split_ifs with hover
  · obtain ⟨k, hk, hsource⟩ := hover
    rw [Finset.sum_eq_single_of_mem k hk fun k' hk' hne => if_neg fun hsource' => hne
      (Window.source_inj hdilation hrank (hlength k' hk') (hlength k hk) hsource' hsource)]
    exact if_pos hsource
  · exact Finset.sum_eq_zero fun k hk => if_neg fun hsource => hover ⟨k, hk, hsource⟩

/-- **Averaging and sending back equal shares are adjoint.** -/
theorem inner_avgPool2d {K : Type*} [Field K] {w : Window} {image : List ℕ}
    (hrank : image.length = 4) (kernel out : List ℕ) (g x : List ℕ → K) :
    inner out g (avgPool2d w image kernel x) =
      inner image (pooledBack w image kernel out fun i _ => g i / (kernel.prod : ℕ)) x := by
  have hpush : ∀ j, pooledBack w image kernel out (fun i _ => g i / (kernel.prod : ℕ)) j =
      ∑ k ∈ box kernel, push out (w.source image k) (fun i => g i / (kernel.prod : ℕ)) j :=
    fun j => Finset.sum_comm
  calc inner out g (avgPool2d w image kernel x)
      = ∑ i ∈ box out, ∑ k ∈ box kernel,
          pull (w.source image k) x i * (g i / (kernel.prod : ℕ)) := by
        refine Finset.sum_congr rfl fun i _ => ?_
        rw [avgPool2d, Finset.sum_div, Finset.mul_sum]
        exact Finset.sum_congr rfl fun k _ => by ring
    _ = ∑ k ∈ box kernel, inner out (pull (w.source image k) x)
          fun i => g i / (kernel.prod : ℕ) := Finset.sum_comm
    _ = ∑ k ∈ box kernel, inner image x
          (push out (w.source image k) fun i => g i / (kernel.prod : ℕ)) :=
        Finset.sum_congr rfl fun k _ => inner_pull (Window.mapsBox_source out hrank) _ _
    _ = inner image (pooledBack w image kernel out fun i _ => g i / (kernel.prod : ℕ)) x := by
        unfold inner
        rw [Finset.sum_comm]
        refine Finset.sum_congr rfl fun j _ => ?_
        rw [hpush, Finset.sum_mul]
        exact Finset.sum_congr rfl fun k _ => mul_comm _ _

/-! ## Maxima -/

section Maxima

variable {V α : Type*} [LinearOrder α]

/-- A maximum of two values: not a number when one of them is none, and otherwise the
one further up on the scale. -/
structure NanMaximum (isNan : V → Bool) (scale : V → α) where
  op : V → V → V
  isNan_op : ∀ x y, isNan (op x y) = (isNan x || isNan y)
  op_eq : ∀ x y, isNan x = false → isNan y = false → op x y = x ∨ op x y = y
  scale_op : ∀ x y, isNan x = false → isNan y = false → scale (op x y) = max (scale x) (scale y)

/-- A maximum of several entries.  Without entries it is the filler, which is
otherwise not seen. -/
structure IsMaximum (isNan : V → Bool) (scale : V → α) (filler : V) (entries : List V) (y : V) :
    Prop where
  isNan_eq : isNan y = entries.any isNan
  of_nil : entries = [] → y = filler
  greatest : entries ≠ [] → (∀ v ∈ entries, isNan v = false) →
    y ∈ entries ∧ ∀ v ∈ entries, scale v ≤ scale y

/-- Nothing is below the filler, and nothing else level with it. -/
structure IsLowest (isNan : V → Bool) (scale : V → α) (filler : V) : Prop where
  isNan_eq : isNan filler = false
  le : ∀ v, isNan v = false → scale filler ≤ scale v
  eq_of_le : ∀ v, isNan v = false → scale v ≤ scale filler → v = filler

namespace NanMaximum

/-- The maximum that keeps its first operand among equals. -/
def first (isNan : V → Bool) (scale : V → α) : NanMaximum isNan scale where
  op x y := if isNan x then x else if isNan y then y else if scale x < scale y then y else x
  isNan_op x y := by
    cases hx : isNan x <;> cases hy : isNan y <;> simp [hx, hy]
    split_ifs <;> assumption
  op_eq x y hx hy := by
    rw [hx, hy]
    simp only [Bool.false_eq_true, if_false]
    split_ifs
    · exact .inr rfl
    · exact .inl rfl
  scale_op x y hx hy := by
    rw [hx, hy]
    simp only [Bool.false_eq_true, if_false]
    split_ifs with hlt
    · exact (max_eq_right hlt.le).symm
    · exact (max_eq_left (not_lt.mp hlt)).symm

/-- The maximum of a linear order, where every value is a number. -/
def ofOrder (α : Type*) [LinearOrder α] : NanMaximum (fun _ : α => false) (id : α → α) where
  op := max
  isNan_op _ _ := rfl
  op_eq x y _ _ := max_choice x y
  scale_op _ _ _ _ := rfl

variable {isNan : V → Bool} {scale : V → α} (M : NanMaximum isNan scale)

theorem isNan_foldl (vs : List V) (start : V) :
    isNan (vs.foldl M.op start) = (isNan start || vs.any isNan) := by
  induction vs generalizing start with
  | nil => rw [List.foldl_nil, List.any_nil, Bool.or_false]
  | cons v vs ih => rw [List.foldl_cons, ih, M.isNan_op, List.any_cons, Bool.or_assoc]

/-- Numbers fold to one of them, on the scale to the maximum. -/
theorem foldl_numbers {vs : List V} (hvs : ∀ v ∈ vs, isNan v = false) {start : V}
    (hstart : isNan start = false) :
    (vs.foldl M.op start = start ∨ vs.foldl M.op start ∈ vs) ∧
      scale (vs.foldl M.op start) = (vs.map scale).foldl max (scale start) := by
  induction vs generalizing start with
  | nil => exact ⟨.inl rfl, rfl⟩
  | cons v vs ih =>
      obtain ⟨hv, hvs⟩ := List.forall_mem_cons.mp hvs
      have hop : isNan (M.op start v) = false := by rw [M.isNan_op, hstart, hv, Bool.or_false]
      obtain ⟨hmem, hscale⟩ := ih hvs hop
      rw [List.foldl_cons, List.map_cons, List.foldl_cons, ← M.scale_op start v hstart hv]
      refine ⟨?_, hscale⟩
      rcases hmem with heq | hmem
      · rw [heq]
        exact (M.op_eq start v hstart hv).imp_right fun h => List.mem_cons.mpr (.inl h)
      · exact .inr (List.mem_cons_of_mem v hmem)

/-- **Padding is not seen**: entries and fillers, folded from the filler, come to the
maximum of the entries. -/
theorem isMaximum_foldl {filler : V} (hfiller : IsLowest isNan scale filler)
    (reads : List (Option V)) :
    IsMaximum isNan scale filler reads.reduceOption
      ((reads.map (·.getD filler)).foldl M.op filler) := by
  have hmem : ∀ {v}, v ∈ reads.map (·.getD filler) → v ∈ reads.reduceOption ∨ v = filler := by
    intro v hv
    obtain ⟨read, hread, rfl⟩ := List.mem_map.mp hv
    cases read with
    | none => exact .inr rfl
    | some v => exact .inl (List.reduceOption_mem_iff.mpr hread)
  have hentry : ∀ {v}, v ∈ reads.reduceOption → v ∈ reads.map (·.getD filler) := by
    intro v hv
    exact List.mem_map.mpr ⟨some v, List.reduceOption_mem_iff.mp hv, rfl⟩
  refine ⟨?_, fun hnil => ?_, fun hne hnumbers => ?_⟩
  · rw [M.isNan_foldl, hfiller.isNan_eq, Bool.false_or, Bool.eq_iff_iff, List.any_eq_true,
      List.any_eq_true]
    constructor
    · rintro ⟨v, hv, hnan⟩
      rcases hmem hv with hv | rfl
      · exact ⟨v, hv, hnan⟩
      · rw [hfiller.isNan_eq] at hnan
        cases hnan
    · rintro ⟨v, hv, hnan⟩
      exact ⟨v, hentry hv, hnan⟩
  · -- every value is the filler
    have hvalues : ∀ v ∈ reads.map (·.getD filler), v = filler := by
      intro v hv
      rcases hmem hv with hv | hv
      · rw [hnil] at hv
        cases hv
      · exact hv
    have hnumbers : ∀ v ∈ reads.map (·.getD filler), isNan v = false := fun v hv =>
      (hvalues v hv).symm ▸ hfiller.isNan_eq
    exact (M.foldl_numbers hnumbers hfiller.isNan_eq).1.elim id (hvalues _)
  · have hvalues : ∀ v ∈ reads.map (·.getD filler), isNan v = false := by
      intro v hv
      rcases hmem hv with hv | rfl
      · exact hnumbers v hv
      · exact hfiller.isNan_eq
    obtain ⟨hplace, hscale⟩ := M.foldl_numbers hvalues hfiller.isNan_eq
    obtain ⟨-, hupper⟩ := isGreatest_foldl_max ((reads.map (·.getD filler)).map scale)
      (scale filler)
    rw [← hscale] at hupper
    have hgreatest : ∀ v ∈ reads.reduceOption, scale v ≤
        scale ((reads.map (·.getD filler)).foldl M.op filler) := fun v hv =>
      hupper (.inr (List.mem_map_of_mem (hentry hv)))
    refine ⟨?_, hgreatest⟩
    generalize (reads.map (·.getD filler)).foldl M.op filler = y at hplace hgreatest
    rcases hplace.imp_right hmem with rfl | hy | rfl
    · -- the filler is the greatest, so every entry is the filler
      obtain ⟨v, hv⟩ := List.exists_mem_of_ne_nil _ hne
      exact hfiller.eq_of_le v (hnumbers v hv) (hgreatest v hv) ▸ hv
    · exact hy
    · obtain ⟨v, hv⟩ := List.exists_mem_of_ne_nil _ hne
      exact hfiller.eq_of_le v (hnumbers v hv) (hgreatest v hv) ▸ hv

/-- **The entries of the image under a window**, with fillers where it hangs over the
border, fold to their maximum. -/
theorem isMaximum_window {filler : V} (hfiller : IsLowest isNan scale filler) (w : Window)
    (image kernel i : List ℕ) (x : List ℕ → V) :
    IsMaximum isNan scale filler ((w.covered image kernel i).map x)
      (((positions kernel).map fun k => (w.source image k i).elim filler x).foldl M.op filler) := by
  have hmaximum := M.isMaximum_foldl hfiller
    ((positions kernel).map fun k => (w.source image k i).map x)
  have hentries : ((positions kernel).map fun k => (w.source image k i).map x).reduceOption =
      (w.covered image kernel i).map x := by
    unfold Window.covered List.reduceOption
    rw [List.filterMap_map, List.map_filterMap]
    rfl
  have hvalues : ((positions kernel).map fun k => (w.source image k i).map x).map
      (·.getD filler) = (positions kernel).map fun k => (w.source image k i).elim filler x := by
    rw [List.map_map]
    apply List.map_congr_left
    intro k _
    rw [Function.comp_apply]
    cases w.source image k i <;> rfl
  rwa [hentries, hvalues] at hmaximum

end NanMaximum

theorem isLowest_bot {α : Type*} [LinearOrder α] [OrderBot α] :
    IsLowest (fun _ : α => false) id ⊥ :=
  ⟨rfl, fun _ _ => bot_le, fun _ _ h => le_bot_iff.mp h⟩

/-- Over an order with a least element a maximum is the supremum. -/
theorem IsMaximum.eq_foldl_max {α : Type*} [LinearOrder α] [OrderBot α] {entries : List α} {y : α}
    (h : IsMaximum (fun _ => false) id ⊥ entries y) : y = entries.foldl max ⊥ := by
  refine IsGreatest.unique ?_ (isGreatest_foldl_max entries ⊥)
  by_cases hnil : entries = []
  · subst hnil
    refine ⟨.inl (h.of_nil rfl), ?_⟩
    rintro v (rfl | hv)
    · exact bot_le
    · cases hv
  · obtain ⟨hmem, hupper⟩ := h.greatest hnil fun _ _ => rfl
    refine ⟨.inr hmem, ?_⟩
    rintro v (rfl | hv)
    · exact bot_le
    · exact hupper v hv

end Maxima

end Arrays
