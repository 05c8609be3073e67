import Mathlib
import Knok.MovementRule
import Knok.Lowering.TensorOps

/-!
# The sizes that the type rules accept

The rules of `slice`, `pad`, `split`, `reshape` and `concat` compare sums and
products of sizes, which are computed modulo `2 ^ 64`.  What they accept is true of
the numbers themselves unless a sum or a product passes its check after it has
wrapped (`acceptedIsTrue_iff`).

### Design decisions

* **Two properties.**  The facts about the sizes (`ShapeFacts`), and that the paddings
  and offsets which the lowering computes from them are the true ones
  (`LoweredSizesExact`).
-/

namespace Knok.Lowering

open Arrays Control

/-- What the sizes of an accepted call satisfy. -/
def ShapeFacts (op : CallOp) (tys results : List TensorType) : Prop :=
  match op, tys with
  | .slice target starts, [input] =>
      ∀ axis < input.rank, starts.getD axis 0 + target.dim axis ≤ input.dim axis
  | .pad target lows, [input] =>
      ∀ axis < input.rank, input.dim axis + lows.getD axis 0 ≤ target.dim axis
  | .split axis sections, [input] => sections.sum = input.dim axis
  | .reshape target, [input] => input.shape.prod = target.shape.prod
  | .concat axis, [lhs, rhs] => (headType results).dim axis = lhs.dim axis + rhs.dim axis
  | _, _ => True

/-- The paddings and offsets that the lowering computes are the true ones. -/
def LoweredSizesExact (op : CallOp) (tys results : List TensorType) : Prop :=
  match op, tys with
  | .pad target lows, [input] =>
      let highs := List.zipWith usizeSub (List.zipWith usizeSub target.shape input.shape) lows
      ∀ axis < input.rank, input.dim axis + lows.getD axis 0 + highs.getD axis 0 = target.dim axis
  | .split axis sections, [input] => ∀ k < sections.length,
      usizeSum (sections.take k) = (sections.take k).sum ∧
        (sections.take k).sum + sections.getD k 0 ≤ input.dim axis
  | .concat axis, [lhs, rhs] =>
      usizeSub ((headType results).dim axis) (rhs.dim axis) = lhs.dim axis
  | _, _ => True

/-- What the type rule accepts is true. -/
def AcceptedIsTrue (op : CallOp) (tys : List TensorType) : Prop :=
  ∀ results, inferCallResults op tys = .ok results →
    ShapeFacts op tys results ∧ LoweredSizesExact op tys results

/-- A sum or a product of sizes wraps, and every check of the rule passes. -/
def WrapsUnnoticed (op : CallOp) (tys : List TensorType) : Prop :=
  match op, tys with
  | .slice target starts, [input] =>
      (input.elem = target.elem ∧ input.rank = target.rank ∧ starts.length = input.rank) ∧
      (∀ axis < input.rank,
        (starts.getD axis 0 + target.dim axis) % 2 ^ 64 ≤ input.dim axis) ∧
      ∃ axis < input.rank, 2 ^ 64 ≤ starts.getD axis 0 + target.dim axis
  | .pad target lows, [input] =>
      (input.elem = target.elem ∧ input.rank = target.rank ∧ lows.length = input.rank) ∧
      (∀ axis < input.rank,
        (input.dim axis + lows.getD axis 0) % 2 ^ 64 ≤ target.dim axis) ∧
      ∃ axis < input.rank, 2 ^ 64 ≤ input.dim axis + lows.getD axis 0
  | .split axis sections, [input] =>
      axis < input.rank ∧ sections.sum % 2 ^ 64 = input.dim axis ∧ 2 ^ 64 ≤ sections.sum
  | .reshape target, [input] =>
      input.elem = target.elem ∧ input.shape.prod % 2 ^ 64 = target.shape.prod % 2 ^ 64 ∧
        input.shape.prod ≠ target.shape.prod
  | .concat axis, [lhs, rhs] =>
      (lhs.elem = rhs.elem ∧ lhs.rank = rhs.rank ∧ axis < lhs.rank) ∧
      (∀ other < lhs.rank, other ≠ axis → lhs.dim other = rhs.dim other) ∧
      2 ^ 64 ≤ lhs.dim axis + rhs.dim axis
  | _, _ => False

/-- The sizes of a target are words. -/
def UsizeTarget : CallOp → Prop
  | .pad target _ => UsizeDims target.shape
  | _ => True

/-! ## The rules, one by one -/

section Rules

variable {input lhs rhs target : TensorType} {axis : ℕ} {results : List TensorType}

theorem inferCallResults_slice_iff {starts : List ℕ} :
    inferCallResults (.slice target starts) [input] = .ok results ↔
      (input.elem = target.elem ∧ input.rank = target.rank ∧ starts.length = input.rank ∧
        ∀ axis < input.rank, usizeAdd (starts.getD axis 0) (target.dim axis) ≤ input.dim axis) ∧
      results = [target] := by
  simp only [inferCallResults, except_bind_eq_ok_iff, expectUnary_eq_ok_iff,
    except_pure_eq_ok_iff, validateSlice_eq_ok_iff_usize, exists_const]
  constructor
  · rintro ⟨ty, hty, hslice, rfl⟩
    cases hty
    exact ⟨hslice, rfl⟩
  · rintro ⟨hslice, rfl⟩
    exact ⟨input, rfl, hslice, rfl⟩

theorem slice_isTrue_iff {starts : List ℕ} (hdims : UsizeDims input.shape) :
    AcceptedIsTrue (.slice target starts) [input] ↔
      ¬ WrapsUnnoticed (.slice target starts) [input] := by
  constructor
  · rintro htrue ⟨⟨helem, hrank, hlen⟩, hle, axis, haxis, hwraps⟩
    obtain ⟨hfacts, -⟩ := htrue _ (inferCallResults_slice_iff.mpr
      ⟨⟨helem, hrank, hlen, hle⟩, rfl⟩)
    have hfact : starts.getD axis 0 + target.dim axis ≤ input.dim axis := hfacts axis haxis
    have hdim : input.dim axis < 2 ^ 64 := hdims.getD_lt axis
    omega
  · intro hwraps results hok
    obtain ⟨⟨helem, hrank, hlen, hle⟩, -⟩ := inferCallResults_slice_iff.mp hok
    refine ⟨fun axis haxis => ?_, trivial⟩
    have hfit : starts.getD axis 0 + target.dim axis < 2 ^ 64 := by
      by_contra hnot
      exact hwraps ⟨⟨helem, hrank, hlen⟩, hle, axis, haxis, Nat.not_lt.mp hnot⟩
    have hchecked := hle axis haxis
    rwa [usizeAdd_of_lt hfit] at hchecked

theorem inferCallResults_pad_iff {lows : List ℕ} :
    inferCallResults (.pad target lows) [input] = .ok results ↔
      (input.elem = target.elem ∧ input.rank = target.rank ∧ lows.length = input.rank ∧
        ∀ axis < input.rank, usizeAdd (input.dim axis) (lows.getD axis 0) ≤ target.dim axis) ∧
      results = [target] := by
  simp only [inferCallResults, except_bind_eq_ok_iff, expectUnary_eq_ok_iff,
    except_pure_eq_ok_iff, validatePad_eq_ok_iff_usize, exists_const]
  constructor
  · rintro ⟨ty, hty, hpad, rfl⟩
    cases hty
    exact ⟨hpad, rfl⟩
  · rintro ⟨hpad, rfl⟩
    exact ⟨input, rfl, hpad, rfl⟩

/-- The high paddings, where the padded tensor holds its input. -/
theorem highPadding_eq {lows : List ℕ} (hrank : input.rank = target.rank)
    (hlen : lows.length = input.rank) (htarget : UsizeDims target.shape)
    (haxis : axis < input.rank) (hle : input.dim axis + lows.getD axis 0 ≤ target.dim axis) :
    input.dim axis + lows.getD axis 0 + (List.zipWith usizeSub
      (List.zipWith usizeSub target.shape input.shape) lows).getD axis 0 = target.dim axis := by
  have hrank : target.shape.length = input.shape.length := hrank.symm
  have hlen : lows.length = input.shape.length := hlen
  have haxis : axis < input.shape.length := haxis
  have hdim : target.dim axis < 2 ^ 64 := htarget.getD_lt axis
  have hinner : (List.zipWith usizeSub target.shape input.shape).length = input.shape.length := by
    rw [List.length_zipWith, hrank, min_self]
  have hsub : usizeSub (target.dim axis) (input.dim axis) = target.dim axis - input.dim axis :=
    usizeSub_of_le (by omega) hdim
  rw [getD_zipWith _ (hinner.trans hlen.symm) (hinner ▸ haxis),
    getD_zipWith _ hrank (hrank ▸ haxis)]
  show _ + usizeSub (usizeSub (target.dim axis) (input.dim axis)) _ = _
  rw [hsub, usizeSub_of_le (by omega) (by omega)]
  omega

theorem pad_isTrue_iff {lows : List ℕ} (htarget : UsizeDims target.shape) :
    AcceptedIsTrue (.pad target lows) [input] ↔
      ¬ WrapsUnnoticed (.pad target lows) [input] := by
  constructor
  · rintro htrue ⟨⟨helem, hrank, hlen⟩, hle, axis, haxis, hwraps⟩
    obtain ⟨hfacts, -⟩ := htrue _ (inferCallResults_pad_iff.mpr
      ⟨⟨helem, hrank, hlen, hle⟩, rfl⟩)
    have hfact : input.dim axis + lows.getD axis 0 ≤ target.dim axis := hfacts axis haxis
    have hdim : target.dim axis < 2 ^ 64 := htarget.getD_lt axis
    omega
  · intro hwraps results hok
    obtain ⟨⟨helem, hrank, hlen, hle⟩, -⟩ := inferCallResults_pad_iff.mp hok
    have hfacts : ∀ axis < input.rank, input.dim axis + lows.getD axis 0 ≤ target.dim axis := by
      intro axis haxis
      have hfit : input.dim axis + lows.getD axis 0 < 2 ^ 64 := by
        by_contra hnot
        exact hwraps ⟨⟨helem, hrank, hlen⟩, hle, axis, haxis, Nat.not_lt.mp hnot⟩
      have hchecked := hle axis haxis
      rwa [usizeAdd_of_lt hfit] at hchecked
    exact ⟨hfacts, fun axis haxis => highPadding_eq hrank hlen htarget haxis (hfacts axis haxis)⟩

theorem inferCallResults_split_iff {sections : List ℕ} :
    inferCallResults (.split axis sections) [input] = .ok results ↔
      (axis < input.rank ∧ sections.sum % 2 ^ 64 = input.dim axis) ∧
      results = sections.map fun size => ⟨input.elem, input.shape.set axis size⟩ := by
  simp only [inferCallResults, splitResultTypes, except_bind_eq_ok_iff, expectUnary_eq_ok_iff,
    except_pure_eq_ok_iff, expectAxis_eq_ok_iff, failIf_eq_ok_iff, exists_const,
    bne_eq_false_iff_eq, usizeSum_eq]
  constructor
  · rintro ⟨ty, hty, haxis, hsum, rfl⟩
    cases hty
    exact ⟨⟨haxis, hsum⟩, rfl⟩
  · rintro ⟨⟨haxis, hsum⟩, rfl⟩
    exact ⟨input, rfl, haxis, hsum, rfl⟩

/-- Up to every section, and with it, the sections stay within their sum. -/
theorem sum_take_add_le {sections : List ℕ} {k : ℕ} (hk : k < sections.length) :
    (sections.take k).sum + sections.getD k 0 ≤ sections.sum := by
  have hsplit := sections.sum_take_add_sum_drop k
  rw [List.drop_eq_getElem_cons hk, List.sum_cons] at hsplit
  rw [List.getD_eq_getElem _ _ hk]
  omega

theorem split_isTrue_iff {sections : List ℕ} (hdims : UsizeDims input.shape) :
    AcceptedIsTrue (.split axis sections) [input] ↔
      ¬ WrapsUnnoticed (.split axis sections) [input] := by
  have hdim : input.dim axis < 2 ^ 64 := hdims.getD_lt axis
  constructor
  · rintro htrue ⟨haxis, hsum, hwraps⟩
    obtain ⟨hfact, -⟩ := htrue _ (inferCallResults_split_iff.mpr ⟨⟨haxis, hsum⟩, rfl⟩)
    have hfact : sections.sum = input.dim axis := hfact
    omega
  · intro hwraps results hok
    obtain ⟨⟨haxis, hsum⟩, -⟩ := inferCallResults_split_iff.mp hok
    have hfit : sections.sum < 2 ^ 64 := by
      by_contra hnot
      exact hwraps ⟨haxis, hsum, Nat.not_lt.mp hnot⟩
    rw [Nat.mod_eq_of_lt hfit] at hsum
    refine ⟨hsum, fun k hk => ?_⟩
    have hle := sum_take_add_le hk
    refine ⟨?_, hsum ▸ hle⟩
    rw [usizeSum_eq, Nat.mod_eq_of_lt (by omega)]

theorem inferCallResults_reshape_iff :
    inferCallResults (.reshape target) [input] = .ok results ↔
      (input.elem = target.elem ∧
        input.shape.prod % 2 ^ 64 = target.shape.prod % 2 ^ 64) ∧ results = [target] := by
  simp only [inferCallResults, validateReshape, except_bind_eq_ok_iff, expectUnary_eq_ok_iff,
    except_pure_eq_ok_iff, failIf_eq_ok_iff, exists_const, bne_eq_false_iff_eq, elementCount,
    usizeProduct_eq]
  constructor
  · rintro ⟨ty, hty, hcounts, rfl⟩
    cases hty
    exact ⟨hcounts, rfl⟩
  · rintro ⟨hcounts, rfl⟩
    exact ⟨input, rfl, hcounts, rfl⟩

theorem reshape_isTrue_iff :
    AcceptedIsTrue (.reshape target) [input] ↔ ¬ WrapsUnnoticed (.reshape target) [input] := by
  constructor
  · rintro htrue ⟨helem, hcounts, hne⟩
    exact hne (htrue _ (inferCallResults_reshape_iff.mpr ⟨⟨helem, hcounts⟩, rfl⟩)).1
  · intro hwraps results hok
    obtain ⟨⟨helem, hcounts⟩, -⟩ := inferCallResults_reshape_iff.mp hok
    refine ⟨?_, trivial⟩
    by_contra hne
    exact hwraps ⟨helem, hcounts, hne⟩

theorem inferCallResults_concat_iff :
    inferCallResults (.concat axis) [lhs, rhs] = .ok results ↔
      (lhs.elem = rhs.elem ∧ lhs.rank = rhs.rank ∧ axis < lhs.rank ∧
        ∀ other < lhs.rank, other ≠ axis → lhs.dim other = rhs.dim other) ∧
      results =
        [⟨lhs.elem, lhs.shape.set axis (usizeAdd (lhs.dim axis) (rhs.dim axis))⟩] := by
  simp only [inferCallResults, except_bind_eq_ok_iff, expectBinary_eq_ok_iff,
    except_pure_eq_ok_iff, concatResultType_eq_ok_iff_usize]
  constructor
  · rintro ⟨⟨l, r⟩, hpair, ty, ⟨helem, hrank, haxis, hsame, rfl⟩, rfl⟩
    cases hpair
    exact ⟨⟨helem, hrank, haxis, hsame⟩, rfl⟩
  · rintro ⟨⟨helem, hrank, haxis, hsame⟩, rfl⟩
    exact ⟨(lhs, rhs), rfl, _, ⟨helem, hrank, haxis, hsame, rfl⟩, rfl⟩

theorem concat_isTrue_iff (hdims : UsizeDims lhs.shape) :
    AcceptedIsTrue (.concat axis) [lhs, rhs] ↔ ¬ WrapsUnnoticed (.concat axis) [lhs, rhs] := by
  have hresult : axis < lhs.rank → ∀ dim, (headType [(⟨lhs.elem, lhs.shape.set axis dim⟩ :
      TensorType)]).dim axis = dim := by
    intro haxis dim
    show (lhs.shape.set axis dim).getD axis 0 = dim
    rw [getD_set_of_lt haxis, if_pos rfl]
  have hdim : lhs.dim axis < 2 ^ 64 := hdims.getD_lt axis
  constructor
  · rintro htrue ⟨⟨helem, hrank, haxis⟩, hsame, hwraps⟩
    obtain ⟨hfact, -⟩ := htrue _ (inferCallResults_concat_iff.mpr
      ⟨⟨helem, hrank, haxis, hsame⟩, rfl⟩)
    have hfact : usizeAdd (lhs.dim axis) (rhs.dim axis) = lhs.dim axis + rhs.dim axis :=
      (hresult haxis _).symm.trans hfact
    have hword := usizeAdd_lt (lhs.dim axis) (rhs.dim axis)
    omega
  · intro hwraps results hok
    obtain ⟨⟨helem, hrank, haxis, hsame⟩, rfl⟩ := inferCallResults_concat_iff.mp hok
    have hfit : lhs.dim axis + rhs.dim axis < 2 ^ 64 := by
      by_contra hnot
      exact hwraps ⟨⟨helem, hrank, haxis⟩, hsame, Nat.not_lt.mp hnot⟩
    have hsum := hresult haxis (lhs.dim axis + rhs.dim axis)
    rw [usizeAdd_of_lt hfit]
    refine ⟨hsum, ?_⟩
    show usizeSub _ _ = _
    rw [hsum, usizeSub_of_le (Nat.le_add_left _ _) hfit, Nat.add_sub_cancel]

end Rules

/-! ## All rules -/

/-- **Accepted shape arithmetic is true arithmetic exactly where no sum and no product
wraps unnoticed.** -/
theorem acceptedIsTrue_iff (op : CallOp) (tys : List TensorType)
    (hdims : ∀ ty ∈ tys, UsizeDims ty.shape) (htarget : UsizeTarget op) :
    AcceptedIsTrue op tys ↔ ¬ WrapsUnnoticed op tys := by
  cases op with
  | slice target starts =>
      match tys with
      | [input] => exact slice_isTrue_iff (hdims input List.mem_cons_self)
      | [] | _ :: _ :: _ => exact iff_of_true (fun _ _ => ⟨trivial, trivial⟩) id
  | pad target lows =>
      match tys with
      | [input] => exact pad_isTrue_iff htarget
      | [] | _ :: _ :: _ => exact iff_of_true (fun _ _ => ⟨trivial, trivial⟩) id
  | split axis sections =>
      match tys with
      | [input] => exact split_isTrue_iff (hdims input List.mem_cons_self)
      | [] | _ :: _ :: _ => exact iff_of_true (fun _ _ => ⟨trivial, trivial⟩) id
  | reshape target =>
      match tys with
      | [input] => exact reshape_isTrue_iff
      | [] | _ :: _ :: _ => exact iff_of_true (fun _ _ => ⟨trivial, trivial⟩) id
  | concat axis =>
      match tys with
      | [lhs, rhs] => exact concat_isTrue_iff (hdims lhs List.mem_cons_self)
      | [] | [_] | _ :: _ :: _ :: _ => exact iff_of_true (fun _ _ => ⟨trivial, trivial⟩) id
  | _ => exact iff_of_true (fun _ _ => ⟨trivial, trivial⟩) id

theorem acceptedIsTrue_slice : AcceptedIsTrue (.slice ⟨.f32, [2, 3]⟩ [1, 0]) [⟨.f32, [4, 3]⟩] :=
  (acceptedIsTrue_iff (.slice ⟨.f32, [2, 3]⟩ [1, 0]) [⟨.f32, [4, 3]⟩] (by decide) trivial).mpr
    (by
      rintro ⟨-, -, axis, haxis, hwraps⟩
      have haxis : axis < 2 := haxis
      interval_cases axis <;> exact absurd hwraps (by decide))

/-- A slice of two entries that starts at the last word. -/
theorem not_acceptedIsTrue_slice_wrapped :
    inferCallResults (.slice ⟨.f32, [2]⟩ [2 ^ 64 - 1]) [⟨.f32, [1]⟩] = .ok [⟨.f32, [2]⟩] ∧
      ¬ AcceptedIsTrue (.slice ⟨.f32, [2]⟩ [2 ^ 64 - 1]) [⟨.f32, [1]⟩] := by
  have hok : inferCallResults (.slice ⟨.f32, [2]⟩ [2 ^ 64 - 1]) [⟨.f32, [1]⟩] =
      .ok [⟨.f32, [2]⟩] := rfl
  refine ⟨hok, fun htrue => ?_⟩
  have hfact := (htrue _ hok).1 0 Nat.one_pos
  exact absurd hfact (by decide)

end Knok.Lowering
