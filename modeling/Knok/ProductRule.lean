import Mathlib
import Knok.MovementRule
import Knok.Arrays.Products

/-!
# What the contraction rules accept

The contractions beside the matrix product: dot products, inner and outer
products, traces and diagonals.  `ContractionTyped` lists the operand and result
types that the rules accept, so that a statement about contractions is proved
form by form.
-/

namespace Knok

open Arrays Control

/-- The contractions beside the matrix product, and the diagonal that one of them
sums. -/
def CallOp.contracts : CallOp → Bool
  | .dot | .vecdot _ | .inner | .outer | .trace _ | .diagonal _ => true
  | _ => false

/-- The axes of a diagonal: the last two unless they are given. -/
def pairAxes (axes : Option (ℕ × ℕ)) (rank : ℕ) : ℕ × ℕ := axes.getD (rank - 2, rank - 1)

/-- The typed contractions. -/
inductive ContractionTyped : CallOp → List TensorType → TensorType → Prop
  | dot {elem : ElementType} (n : ℕ) (helem : elem.isNumeric = true) :
      ContractionTyped .dot [⟨elem, [n]⟩, ⟨elem, [n]⟩] ⟨elem, []⟩
  | vecdot {elem : ElementType} {shape : List ℕ} {axis : Option ℕ} (helem : elem.isNumeric = true)
      (haxis : axis.getD (shape.length - 1) < shape.length) :
      ContractionTyped (.vecdot axis) [⟨elem, shape⟩, ⟨elem, shape⟩]
        ⟨elem, shape.eraseIdx (axis.getD (shape.length - 1))⟩
  | scaleRight {elem : ElementType} (shape : List ℕ) (helem : elem.isNumeric = true) :
      ContractionTyped .inner [⟨elem, []⟩, ⟨elem, shape⟩] ⟨elem, shape⟩
  | scaleLeft {elem : ElementType} {shape : List ℕ} (helem : elem.isNumeric = true)
      (hrank : shape ≠ []) : ContractionTyped .inner [⟨elem, shape⟩, ⟨elem, []⟩] ⟨elem, shape⟩
  | inner {elem : ElementType} (p q : List ℕ) (n : ℕ) (helem : elem.isNumeric = true)
      (hrank : (p ++ q).length ≤ maxTensorRank) :
      ContractionTyped .inner [⟨elem, p ++ [n]⟩, ⟨elem, q ++ [n]⟩] ⟨elem, p ++ q⟩
  | outer {elem : ElementType} (lhs rhs : List ℕ) (helem : elem.isNumeric = true) :
      ContractionTyped .outer [⟨elem, lhs⟩, ⟨elem, rhs⟩]
        ⟨elem, [usizeProduct lhs, usizeProduct rhs]⟩
  | trace {elem : ElementType} {shape : List ℕ} {axes : Option (ℕ × ℕ)} {a b : ℕ}
      (helem : elem.isNumeric = true) (haxes : pairAxes axes shape.length = (a, b))
      (hfits : PairFits a b shape.length) (hdim : shape.getD b 0 = shape.getD a 0) :
      ContractionTyped (.trace axes) [⟨elem, shape⟩] ⟨elem, erasePair a b shape⟩
  | diagonal {elem : ElementType} {shape : List ℕ} {axes : Option (ℕ × ℕ)} {a b : ℕ}
      (haxes : pairAxes axes shape.length = (a, b)) (hfits : PairFits a b shape.length)
      (hdim : shape.getD b 0 = shape.getD a 0) :
      ContractionTyped (.diagonal axes) [⟨elem, shape⟩]
        ⟨elem, erasePair a b shape ++ [shape.getD a 0]⟩

/-! ## Two axes -/

section Pairs

variable {a b : ℕ}

/-- The axes other than two. -/
theorem filter_range_pair {rank : ℕ} (h : PairFits a b rank) :
    (List.range rank).filter (fun axis => axis != a && axis != b) =
      erasePair a b (List.range rank) := by
  have herase : ∀ {l : List ℕ} {axis k : ℕ}, l.Nodup → l[k]? = some axis →
      l.filter (fun other => other != axis) = l.eraseIdx k := by
    intro l axis k hnodup hk
    obtain ⟨hlt, rfl⟩ := List.getElem?_eq_some_iff.mp hk
    rw [← hnodup.erase_getElem, hnodup.erase_eq_filter]
  obtain ⟨ha, hb, hne⟩ := h
  have hrange : ∀ {axis}, axis < rank → (List.range rank)[axis]? = some axis := fun h => by
    rw [List.getElem?_range h]
  unfold erasePair
  split_ifs with hlt
  · rw [← List.filter_filter, herase List.nodup_range (hrange hb)]
    refine herase (List.nodup_range.sublist (List.eraseIdx_sublist _ _)) ?_
    rw [List.getElem?_eraseIdx, if_pos hlt, hrange ha]
  · have hswap : (fun axis : ℕ => axis != a && axis != b) = fun axis => axis != b && axis != a :=
      funext fun axis => Bool.and_comm _ _
    rw [hswap, ← List.filter_filter, herase List.nodup_range (hrange ha)]
    refine herase (List.nodup_range.sublist (List.eraseIdx_sublist _ _)) ?_
    rw [List.getElem?_eraseIdx, if_pos (by omega), hrange hb]

theorem map_erasePair (f : ℕ → ℕ) (l : List ℕ) :
    (erasePair a b l).map f = erasePair a b (l.map f) := by
  unfold erasePair
  split_ifs <;> simp only [List.eraseIdx_map]

theorem map_filter_range_pair {shape : List ℕ} (h : PairFits a b shape.length) :
    ((List.range shape.length).filter fun axis => axis != a && axis != b).map
      (fun axis => shape.getD axis 0) = erasePair a b shape := by
  rw [filter_range_pair h, map_erasePair, map_getD_range]

theorem removeAxesShape_eq {input : TensorType} (h : PairFits a b input.shape.length) :
    removeAxesShape input a b = erasePair a b input.shape := by
  have hzip : input.shape.zipIdx =
      (List.range input.shape.length).map fun axis => (input.shape.getD axis 0, axis) := by
    refine List.ext_getElem (by simp) fun axis haxis _ => ?_
    rw [List.length_zipIdx] at haxis
    rw [List.getElem_zipIdx, List.getElem_map, List.getElem_range, Nat.zero_add,
      List.getD_eq_getElem _ _ haxis]
  rw [← map_filter_range_pair h, removeAxesShape, hzip, List.filterMap_map, ← List.filterMap_eq_map,
    List.filterMap_filter]
  rfl

end Pairs

/-! ## The rules -/

theorem expectSameNumericElement_eq_ok_iff {lhs rhs : TensorType} {name : String} {u : Unit} :
    expectSameNumericElement lhs rhs name = .ok u ↔
      lhs.elem = rhs.elem ∧ lhs.elem.isNumeric = true := by
  simp only [expectSameNumericElement, expectNumericElement, except_bind_eq_ok_iff,
    failIf_eq_ok_iff, exists_const, bne_eq_false_iff_eq, Bool.not_eq_false']

theorem expectAxisOf_eq_ok_iff {input : TensorType} {axis : ℕ} {name : String} {u : Unit} :
    expectAxisOf input axis name = .ok u ↔ axis < input.shape.length := by
  show (if axis < input.shape.length then Except.ok () else _) = _ ↔ _
  split_ifs with h
  · simp [h]
  · simp [h]

theorem defaultAxisPair_eq_ok_iff {input : TensorType} {axes : Option (ℕ × ℕ)} {name : String}
    {pair : ℕ × ℕ} :
    defaultAxisPair input axes name = .ok pair ↔
      2 ≤ input.shape.length ∧ pairAxes axes input.shape.length = pair ∧
        PairFits pair.1 pair.2 input.shape.length := by
  simp only [defaultAxisPair, except_bind_eq_ok_iff, failIf_eq_ok_iff, exists_const,
    expectAxisOf_eq_ok_iff, except_pure_eq_ok_iff, decide_eq_false_iff_not, not_lt,
    beq_eq_false_iff_ne]
  constructor
  · rintro ⟨hrank, ha, hb, hne, rfl⟩
    exact ⟨hrank, rfl, ha, hb, hne⟩
  · rintro ⟨hrank, rfl, ha, hb, hne⟩
    exact ⟨hrank, ha, hb, hne, rfl⟩

theorem eq_append_last {s : List ℕ} (h : s.length ≠ 0) :
    s = s.take (s.length - 1) ++ [s.getD (s.length - 1) 0] := by
  have hlast := List.take_concat_get' s (s.length - 1) (by omega)
  rw [List.getD_eq_getElem _ _ (by omega), hlast, Nat.sub_add_cancel (by omega), List.take_length]

section Rules

variable {lhs rhs input ty : TensorType}

theorem dot_typed (hok : dotResultType lhs rhs = .ok ty) :
    ContractionTyped .dot [lhs, rhs] ty := by
  simp only [dotResultType, except_bind_eq_ok_iff, expectSameNumericElement_eq_ok_iff,
    failIf_eq_ok_iff, exists_const, expectMatchingDim, bne_eq_false_iff_eq, Bool.or_eq_false_iff,
    except_pure_eq_ok_iff] at hok
  obtain ⟨⟨helem, hnumeric⟩, ⟨hlhs, hrhs⟩, hdim, rfl⟩ := hok
  obtain ⟨elem, s⟩ := lhs
  obtain ⟨elem', s'⟩ := rhs
  obtain rfl : elem = elem' := helem
  obtain ⟨n, rfl⟩ := List.length_eq_one_iff.mp hlhs
  obtain ⟨n', rfl⟩ := List.length_eq_one_iff.mp hrhs
  obtain rfl : n = n' := hdim
  exact .dot n hnumeric

theorem vecdot_typed {axis : Option ℕ} (hok : vecdotResultType lhs rhs axis = .ok ty) :
    ContractionTyped (.vecdot axis) [lhs, rhs] ty := by
  simp only [vecdotResultType, except_bind_eq_ok_iff, expectSameNumericElement_eq_ok_iff,
    failIf_eq_ok_iff, exists_const, expectAxisOf_eq_ok_iff, bne_eq_false_iff_eq,
    except_pure_eq_ok_iff] at hok
  obtain ⟨⟨helem, hnumeric⟩, -, hshape, haxis, rfl⟩ := hok
  obtain ⟨elem, s⟩ := lhs
  obtain ⟨elem', s'⟩ := rhs
  obtain rfl : elem = elem' := helem
  obtain rfl : s = s' := hshape
  exact .vecdot hnumeric haxis

theorem inner_typed (hok : innerResultType lhs rhs = .ok ty) :
    ContractionTyped .inner [lhs, rhs] ty := by
  simp only [innerResultType, except_bind_eq_ok_iff, expectSameNumericElement_eq_ok_iff,
    exists_const] at hok
  obtain ⟨⟨helem, hnumeric⟩, hok⟩ := hok
  obtain ⟨elem, s⟩ := lhs
  obtain ⟨elem', s'⟩ := rhs
  obtain rfl : elem = elem' := helem
  split_ifs at hok with hscalar hlhs
  · obtain rfl : s = [] := List.length_eq_zero_iff.mp hlhs
    cases hok
    exact .scaleRight s' hnumeric
  · obtain rfl : s' = [] := List.length_eq_zero_iff.mp (hscalar.resolve_left hlhs)
    cases hok
    exact .scaleLeft hnumeric fun hnil => hlhs (by rw [hnil]; rfl)
  · rw [not_or] at hscalar
    simp only [except_bind_eq_ok_iff, failIf_eq_ok_iff, exists_const, expectMatchingDim,
      bne_eq_false_iff_eq, except_pure_eq_ok_iff, decide_eq_false_iff_not, not_lt] at hok
    obtain ⟨hdim, hrank, rfl⟩ := hok
    have hs := eq_append_last hscalar.1
    have hs' := eq_append_last hscalar.2
    have hdim : s.getD (s.length - 1) 0 = s'.getD (s'.length - 1) 0 := hdim
    rw [← hdim] at hs'
    have htyped := ContractionTyped.inner (s.take (s.length - 1)) (s'.take (s'.length - 1))
      (s.getD (s.length - 1) 0) hnumeric hrank
    rw [← hs, ← hs'] at htyped
    exact htyped

theorem outer_typed (hok : outerResultType lhs rhs = .ok ty) :
    ContractionTyped .outer [lhs, rhs] ty := by
  simp only [outerResultType, except_bind_eq_ok_iff, expectSameNumericElement_eq_ok_iff,
    exists_const, except_pure_eq_ok_iff] at hok
  obtain ⟨⟨helem, hnumeric⟩, rfl⟩ := hok
  obtain ⟨elem, s⟩ := lhs
  obtain ⟨elem', s'⟩ := rhs
  obtain rfl : elem = elem' := helem
  exact .outer s s' hnumeric

theorem trace_typed {axes : Option (ℕ × ℕ)} (hok : traceResultType input axes = .ok ty) :
    ContractionTyped (.trace axes) [input] ty := by
  simp only [traceResultType, except_bind_eq_ok_iff, expectNumericElement, failIf_eq_ok_iff,
    exists_const, defaultAxisPair_eq_ok_iff, expectMatchingDim, bne_eq_false_iff_eq,
    except_pure_eq_ok_iff, Bool.not_eq_false'] at hok
  obtain ⟨hnumeric, ⟨a, b⟩, ⟨-, haxes, hfits⟩, hdim, rfl⟩ := hok
  rw [removeAxesShape_eq hfits]
  exact .trace hnumeric haxes hfits hdim.symm

theorem diagonal_typed {axes : Option (ℕ × ℕ)} (hok : diagonalResultType input axes = .ok ty) :
    ContractionTyped (.diagonal axes) [input] ty := by
  simp only [diagonalResultType, except_bind_eq_ok_iff, failIf_eq_ok_iff,
    exists_const, defaultAxisPair_eq_ok_iff, expectMatchingDim, bne_eq_false_iff_eq,
    except_pure_eq_ok_iff] at hok
  obtain ⟨⟨a, b⟩, ⟨-, haxes, hfits⟩, hdim, rfl⟩ := hok
  rw [removeAxesShape_eq hfits]
  exact .diagonal haxes hfits hdim.symm

end Rules

/-- **What the contraction rules accept** are the typed contractions. -/
theorem contractionTyped_of_inferCallResults {op : CallOp} {tys results : List TensorType}
    (hop : op.contracts = true) (hok : inferCallResults op tys = .ok results) :
    ∃ ty, results = [ty] ∧ ContractionTyped op tys ty := by
  cases op with
  | dot | vecdot axis | inner | outer =>
      simp only [inferCallResults, except_bind_eq_ok_iff, expectBinary_eq_ok_iff,
        except_pure_eq_ok_iff] at hok
      obtain ⟨⟨lhs, rhs⟩, rfl, ty, hok, rfl⟩ := hok
      exact ⟨ty, rfl, by first
        | exact dot_typed hok | exact vecdot_typed hok | exact inner_typed hok
        | exact outer_typed hok⟩
  | trace axes | diagonal axes =>
      simp only [inferCallResults, except_bind_eq_ok_iff, expectUnary_eq_ok_iff,
        except_pure_eq_ok_iff] at hok
      obtain ⟨input, rfl, ty, hok, rfl⟩ := hok
      exact ⟨ty, rfl, by first | exact trace_typed hok | exact diagonal_typed hok⟩
  | _ => cases hop

end Knok
