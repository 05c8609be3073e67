import Mathlib
import Knok.Arrays.Promotion
import Knok.Autograd.Adjoint.Movement
import Knok.Autograd.Adjoint.Unbroadcast
import Knok.MovementRule

/-!
# Gradients of matrix products

The rule of `matmul` promotes vectors to matrices, multiplies the gradient with
the other operand transposed, undoes the promotion and sums over the axes along
which the operand was broadcast.  The two gradients are the adjoints of the
product (`reverseMatmul_adjoint`).
-/

namespace Knok.Autograd

open Arrays Control

universe u

/-! ## Types of promoted operands -/

section Types

variable {elem : ElementType} {s s' batch shape : List ℕ} {m k n : ℕ} {lhsTy rhsTy ty : TensorType}

theorem getD_append_last (s : List ℕ) (m k : ℕ) :
    (s ++ [m, k]).getD ((s ++ [m, k]).length - 1) 0 = k := by
  have hlast : (s ++ [m, k]).length - 1 = s.length + 1 := by simp
  rw [hlast, List.getD_append_right _ _ _ _ (by omega), Nat.add_sub_cancel_left]
  rfl

theorem rowDim_append (s : List ℕ) (m k : ℕ) : rowDim (s ++ [m, k]) = m := by
  have hrow : (s ++ [m, k]).length - 2 = s.length := by simp
  rw [rowDim, if_neg (by simp), hrow, List.getD_append_right _ _ _ _ le_rfl, Nat.sub_self]
  rfl

theorem contractedDim_append (s : List ℕ) (m k : ℕ) : contractedDim (s ++ [m, k]) = m := by
  have hrow : (s ++ [m, k]).length - 2 = s.length := by simp
  rw [contractedDim, if_neg (by simp), hrow, List.getD_append_right _ _ _ _ le_rfl, Nat.sub_self]
  rfl

theorem colDim_append (s : List ℕ) (m k : ℕ) : colDim (s ++ [m, k]) = k := by
  rw [colDim, if_neg (by simp), getD_append_last]

theorem batchShape_append (s : List ℕ) (m k : ℕ) : batchShape (s ++ [m, k]) = s := by
  rw [batchShape]
  exact List.take_left' (by simp)

/-- Products of batches of matrices. -/
theorem matmulTypes_append (helem : elem.isNumeric = true) (hs : s.length ≤ 4) (hs' : s'.length ≤ 4)
    (hbatch : broadcastShapeSlices s s' = .ok batch) :
    MatmulTypes ⟨elem, s ++ [m, k]⟩ ⟨elem, s' ++ [k, n]⟩ ⟨elem, batch ++ [m, n]⟩ batch := by
  have hlen : batch.length = max s.length s'.length := (broadcastShapeSlices_eq_ok_iff.mp hbatch).1
  have hrank : ∀ {s : List ℕ} {a b : ℕ}, s.length ≤ 4 →
      (⟨elem, s ++ [a, b]⟩ : TensorType).rank ≠ 0 ∧
        (⟨elem, s ++ [a, b]⟩ : TensorType).rank ≤ maxTensorRank := by
    intro s a b hle
    unfold TensorType.rank maxTensorRank
    rw [List.length_append]
    simpa using hle
  refine ⟨rfl, helem, hrank hs, hrank hs', ?_, ?_, (hrank (by omega)).2, ?_⟩
  · rw [matmulLhsK_eq, matmulRhsK_eq]
    exact (getD_append_last s m k).trans (contractedDim_append s' k n).symm
  · show broadcastShapeSlices (batchShape (s ++ [m, k])) (batchShape (s' ++ [k, n])) = _
    rw [batchShape_append, batchShape_append, hbatch]
  · rw [matmulShape_eq, matrixAxis_append, matrixAxis_append, rowDim_append, colDim_append]
    rfl

theorem matmulType_eq (h : MatmulTypes lhsTy rhsTy ty batch) : matmulType lhsTy rhsTy = .ok ty := by
  have hok := matmulResultType_eq_ok_iff.mpr ⟨batch, h⟩
  show (inferCallResults .matmul [lhsTy, rhsTy]).bind _ = _
  show ((matmulResultType lhsTy rhsTy).bind _).bind _ = _
  rw [hok]
  rfl

theorem promotedLhsMatmulType_eq (ty : TensorType) :
    promotedLhsMatmulType ty = ⟨ty.elem, lhsMatrix ty.shape⟩ := by
  obtain ⟨elem, shape⟩ := ty
  unfold promotedLhsMatmulType lhsMatrix TensorType.rank
  split_ifs with hvector
  · obtain ⟨dim, rfl⟩ := List.length_eq_one_iff.mp hvector
    rfl
  · rfl

theorem promotedRhsMatmulType_eq (ty : TensorType) :
    promotedRhsMatmulType ty = ⟨ty.elem, rhsMatrix ty.shape⟩ := by
  obtain ⟨elem, shape⟩ := ty
  unfold promotedRhsMatmulType rhsMatrix TensorType.rank
  split_ifs with hvector
  · obtain ⟨dim, rfl⟩ := List.length_eq_one_iff.mp hvector
    rfl
  · rfl

theorem length_batchShape_le (h : shape.length ≤ 6) : (batchShape shape).length ≤ 4 := by
  rw [length_batchShape]
  omega

/-- The promoted operands have a product over the same batch. -/
theorem matmulTypes_promoted (h : MatmulTypes lhsTy rhsTy ty batch) :
    MatmulTypes (promotedLhsMatmulType lhsTy) (promotedRhsMatmulType rhsTy)
      ⟨lhsTy.elem, batch ++ [rowDim lhsTy.shape, colDim rhsTy.shape]⟩ batch := by
  have hdim : lhsTy.shape.getD (lhsTy.shape.length - 1) 0 = contractedDim rhsTy.shape := by
    rw [← matmulLhsK_eq, h.contracted, matmulRhsK_eq]
    rfl
  rw [promotedLhsMatmulType_eq, promotedRhsMatmulType_eq, lhsMatrix_eq h.lhs_rank.1,
    rhsMatrix_eq h.rhs_rank.1, ← h.elem, ← hdim]
  exact matmulTypes_append h.numeric (length_batchShape_le h.lhs_rank.2)
    (length_batchShape_le h.rhs_rank.2) h.broadcast

theorem removeShapeAxis_append_one (s t : List ℕ) :
    removeShapeAxis (s ++ 1 :: t) s.length = .ok (s ++ t) := by
  unfold removeShapeAxis
  have hget : (s ++ 1 :: t).getD s.length 0 = 1 := by
    rw [List.getD_append_right _ _ _ _ le_rfl, Nat.sub_self]
    rfl
  rw [if_neg (by simp), if_neg (not_not.mpr hget), List.eraseIdx_append_of_length_le le_rfl,
    Nat.sub_self]
  rfl

/-- Undoing the promotion of the result. -/
theorem demotedMatmulOutputType_eq (elem : ElementType) (batch lhs rhs : List ℕ) :
    demotedMatmulOutputType ⟨elem, batch ++ [rowDim lhs, colDim rhs]⟩ (lhs.length == 1)
      (rhs.length == 1) = .ok ⟨elem, matmulShape batch lhs rhs⟩ := by
  have hrank : (⟨elem, batch ++ [rowDim lhs, colDim rhs]⟩ : TensorType).rank - 2 = batch.length := by
    simp [TensorType.rank]
  have hrank' : (⟨elem, batch ++ [rowDim lhs, colDim rhs]⟩ : TensorType).rank - 1 =
      (batch ++ [rowDim lhs]).length := by
    simp [TensorType.rank]
  have hfirst : (if (rhs.length == 1) = true then
      removeShapeAxis (batch ++ [rowDim lhs, colDim rhs]) (batch ++ [rowDim lhs]).length
      else .ok (batch ++ [rowDim lhs, colDim rhs])) =
        .ok (batch ++ ([rowDim lhs] ++ matrixAxis rhs (colDim rhs))) := by
    by_cases hv : rhs.length = 1
    · have hremove := removeShapeAxis_append_one (batch ++ [rowDim lhs]) []
      rw [if_pos (beq_iff_eq.mpr hv), matrixAxis, colDim, if_pos hv, if_pos hv]
      simpa only [List.append_assoc, List.append_nil, List.singleton_append] using hremove
    · rw [if_neg (by simpa using hv), matrixAxis, if_neg hv]
      rfl
  have hsecond : (if (lhs.length == 1) = true then
      removeShapeAxis (batch ++ ([rowDim lhs] ++ matrixAxis rhs (colDim rhs))) batch.length
      else .ok (batch ++ ([rowDim lhs] ++ matrixAxis rhs (colDim rhs)))) =
        .ok (batch ++ (matrixAxis lhs (rowDim lhs) ++ matrixAxis rhs (colDim rhs))) := by
    by_cases hl : lhs.length = 1
    · have hrow : rowDim lhs = 1 := if_pos hl
      have haxis : matrixAxis lhs 1 = [] := if_pos hl
      rw [if_pos (beq_iff_eq.mpr hl), hrow, haxis]
      exact removeShapeAxis_append_one batch (matrixAxis rhs (colDim rhs))
    · have haxis : matrixAxis lhs (rowDim lhs) = [rowDim lhs] := if_neg hl
      rw [if_neg (by simpa using hl), haxis]
  unfold demotedMatmulOutputType
  rw [hrank, hrank', matmulShape_eq]
  cases hlv : lhs.length == 1 <;> cases hrv : rhs.length == 1 <;>
    simp only [hlv, hrv, if_true, if_false, Bool.false_eq_true] at hfirst hsecond ⊢ <;>
    simp only [pure, Except.pure, bind, Except.bind, hfirst, hsecond]

/-- **The promoted operands of an accepted product.** -/
theorem matmulGradSpec_new (h : MatmulTypes lhsTy rhsTy ty batch) :
    MatmulGradSpec.new lhsTy rhsTy ty = .ok
      ⟨lhsTy.shape.length == 1, rhsTy.shape.length == 1, promotedLhsMatmulType lhsTy,
        promotedRhsMatmulType rhsTy,
        ⟨lhsTy.elem, batch ++ [rowDim lhsTy.shape, colDim rhsTy.shape]⟩⟩ := by
  unfold MatmulGradSpec.new
  simp only [except_bind_eq_ok_iff]
  refine ⟨_, matmulType_eq (matmulTypes_promoted h), _, demotedMatmulOutputType_eq _ _ _ _, ?_⟩
  rw [if_neg (not_not.mpr h.ty_eq.symm)]
  rfl

theorem swapDims_append (s : List ℕ) (m n : ℕ) :
    swapDims (s ++ [m, n]) s.length (s.length + 1) = s ++ [n, m] := by
  have hm : (s ++ [m, n]).getD s.length 0 = m := by
    rw [List.getD_append_right _ _ _ _ le_rfl, Nat.sub_self]
    rfl
  have hn : (s ++ [m, n]).getD (s.length + 1) 0 = n := by
    rw [List.getD_append_right _ _ _ _ (by omega), Nat.add_sub_cancel_left]
    rfl
  rw [swapDims, hm, hn, List.set_append_right _ _ le_rfl, Nat.sub_self,
    List.set_append_right _ _ (by omega), Nat.add_sub_cancel_left]
  rfl

end Types

/-! ## Values -/

/-- The entries of a matrix, transposed. -/
def swapped {R : Type*} (s : List ℕ) (x : List ℕ → R) (i : List ℕ) : R :=
  x (permutePosition (swapDims (List.range (s.length + 2)) s.length (s.length + 1)) i)

theorem swapped_entry {R : Type*} {s b : List ℕ} (hb : b.length = s.length) (x : List ℕ → R) (r c : ℕ) :
    swapped s x (b ++ [r, c]) = x (b ++ [c, r]) := by
  have hinverse := inverseAxes_swapDims (show s.length < s.length + 2 by omega)
    (show s.length + 1 < s.length + 2 by omega)
  have hlen := hinverse.length_eq
  refine congrArg x (ext_getD ?_ fun axis haxis => ?_)
  · rw [length_permutePosition, hlen]
    simp [hb]
  · rw [length_permutePosition, hlen] at haxis
    rw [getD_permutePosition (hlen.symm ▸ haxis), ← hinverse.getD_eq_idxOf haxis,
      getD_swapDims_range (by omega) (by omega) haxis]
    rcases Nat.lt_or_ge axis b.length with hlt | hge
    · rw [if_neg (by omega), if_neg (by omega), List.getD_append _ _ _ _ hlt,
        List.getD_append _ _ _ _ hlt]
    · obtain rfl | rfl : axis = s.length ∨ axis = s.length + 1 := by omega
      · rw [if_neg (by omega), if_pos rfl, ← hb, List.getD_append_right _ _ _ _ (by omega),
          List.getD_append_right _ _ _ _ le_rfl, Nat.add_sub_cancel_left, Nat.sub_self]
        rfl
      · rw [if_pos rfl, ← hb, List.getD_append_right _ _ _ _ le_rfl,
          List.getD_append_right _ _ _ _ (by omega), Nat.add_sub_cancel_left, Nat.sub_self]
        rfl

section Values

variable {R : Type u} [CommRing R] {A : Arithmetic R} {calls : Calls (Tensor R)}
  {values : Env (Tensor R)} {e : Expr} {elem : ElementType} {s : List ℕ} {m n : ℕ}
  {x : List ℕ → R}

theorem swapLastTwo_eq (e : Expr) (elem : ElementType) (s : List ℕ) (m n : ℕ) :
    swapLastTwo e ⟨elem, s ++ [m, n]⟩ = .ok (call (.swapAxes s.length (s.length + 1)) [e]) ∧
      swapLastTwoType ⟨elem, s ++ [m, n]⟩ = .ok ⟨elem, s ++ [n, m]⟩ := by
  have hrank : (⟨elem, s ++ [m, n]⟩ : TensorType).rank = s.length + 2 := by simp [TensorType.rank]
  unfold swapLastTwo swapLastTwoType
  rw [hrank, if_neg (by omega), if_neg (by omega), Nat.add_sub_cancel,
    show s.length + 2 - 1 = s.length + 1 by omega, swapDims_append]
  exact ⟨rfl, rfl⟩

theorem evaluates_swapLastTwo (h : Evaluates A calls values e ⟨elem, s ++ [m, n]⟩ x) :
    Evaluates A calls values (call (.swapAxes s.length (s.length + 1)) [e]) ⟨elem, s ++ [n, m]⟩
      (swapped s x) := by
  have hlen : (s ++ [m, n]).length = s.length + 2 := by simp
  have htyped := @MovementTyped.swapAxes elem (s ++ [m, n]) s.length (s.length + 1) (by omega)
    (by omega)
  rw [swapDims_append] at htyped
  have hlaw : ∀ i, movementLaw (.swapAxes s.length (s.length + 1)) [⟨elem, s ++ [m, n]⟩] 0 i =
      some (0, permutePosition
        (swapDims (List.range (s.length + 2)) s.length (s.length + 1)) i) := fun i =>
    congrArg (fun rank => some (0, permutePosition
      (swapDims (List.range rank) s.length (s.length + 1)) i)) hlen
  have hmoved := h.movement_total (t := permutePosition
    (swapDims (List.range (s.length + 2)) s.length (s.length + 1))) htyped
      (inferCallResults_of_movementTyped htyped trivial) (fun _ _ => nofun) hlaw
  exact hmoved

/-- Leaving out a unit axis. -/
theorem removeAxis_append_one {t : List ℕ}
    (h : Evaluates A calls values e ⟨elem, s ++ 1 :: t⟩ x) :
    ∃ e', removeAxis e ⟨elem, s ++ 1 :: t⟩ s.length = .ok (e', ⟨elem, s ++ t⟩) ∧
      Evaluates A calls values e' ⟨elem, s ++ t⟩ (reshaped (s ++ 1 :: t) (s ++ t) x) := by
  refine ⟨call (.reshape ⟨elem, s ++ t⟩) [e], ?_, h.reshape (by simp)⟩
  unfold removeAxis
  rw [removeShapeAxis_append_one]
  rfl

variable {batch lhs rhs : List ℕ} {k : ℕ} (spec : MatmulGradSpec)

/-- The gradient of the left operand, promotion undone. -/
theorem exists_demoteLhsGrad (hspec : spec.lhsIsVector = (lhs.length == 1))
    (h : Evaluates A calls values e ⟨elem, batch ++ [rowDim lhs, k]⟩ x) :
    ∃ e', spec.demoteLhsGrad e ⟨elem, batch ++ [rowDim lhs, k]⟩ =
        .ok (e', ⟨elem, batch ++ (matrixAxis lhs (rowDim lhs) ++ [k])⟩) ∧
      Evaluates A calls values e' ⟨elem, batch ++ (matrixAxis lhs (rowDim lhs) ++ [k])⟩
        (reshaped (batch ++ [rowDim lhs, k]) (batch ++ (matrixAxis lhs (rowDim lhs) ++ [k])) x) := by
  have hrank : (⟨elem, batch ++ [rowDim lhs, k]⟩ : TensorType).rank - 2 = batch.length := by
    simp [TensorType.rank]
  unfold MatmulGradSpec.demoteLhsGrad
  rw [hspec, hrank]
  by_cases hl : lhs.length = 1
  · have hrow : rowDim lhs = 1 := if_pos hl
    have haxis : matrixAxis lhs 1 = [] := if_pos hl
    rw [hrow] at h ⊢
    rw [haxis, if_pos (beq_iff_eq.mpr hl)]
    exact removeAxis_append_one h
  · have haxis : matrixAxis lhs (rowDim lhs) = [rowDim lhs] := if_neg hl
    rw [haxis, if_neg (by simpa using hl)]
    exact ⟨e, rfl, h.congr fun i hi => (reshaped_self x hi).symm⟩

/-- The gradient of the right operand, promotion undone. -/
theorem exists_demoteRhsGrad (hspec : spec.rhsIsVector = (rhs.length == 1))
    (h : Evaluates A calls values e ⟨elem, batch ++ [k, colDim rhs]⟩ x) :
    ∃ e', spec.demoteRhsGrad e ⟨elem, batch ++ [k, colDim rhs]⟩ =
        .ok (e', ⟨elem, batch ++ ([k] ++ matrixAxis rhs (colDim rhs))⟩) ∧
      Evaluates A calls values e' ⟨elem, batch ++ ([k] ++ matrixAxis rhs (colDim rhs))⟩
        (reshaped (batch ++ [k, colDim rhs]) (batch ++ ([k] ++ matrixAxis rhs (colDim rhs))) x) := by
  have hrank : (⟨elem, batch ++ [k, colDim rhs]⟩ : TensorType).rank - 1 =
      (batch ++ [k]).length := by
    simp [TensorType.rank]
  unfold MatmulGradSpec.demoteRhsGrad
  rw [hspec, hrank]
  by_cases hv : rhs.length = 1
  · have hcol : colDim rhs = 1 := if_pos hv
    have haxis : matrixAxis rhs 1 = [] := if_pos hv
    rw [hcol] at h ⊢
    rw [haxis, if_pos (beq_iff_eq.mpr hv)]
    have hsplit : batch ++ [k, 1] = (batch ++ [k]) ++ 1 :: [] := by simp
    rw [hsplit] at h ⊢
    have hremove := removeAxis_append_one h
    rwa [List.append_nil] at hremove ⊢
  · have haxis : matrixAxis rhs (colDim rhs) = [colDim rhs] := if_neg hv
    rw [haxis, if_neg (by simpa using hv)]
    exact ⟨e, rfl, h.congr fun i hi => (reshaped_self x hi).symm⟩

end Values

/-! ## Entries of the emitted products -/

section Entries

variable {R : Type u} [CommRing R] {batch lhs rhs b : List ℕ} {g x : List ℕ → R} {k r c t : ℕ}

/-- The gradient times the right operand transposed. -/
theorem lhsProduct_entry (hpos : rhs.length ≠ 0) (hbatch : BroadcastsTo (batchShape rhs) batch)
    (hk : k = contractedDim rhs) (hb : InBounds b batch) (hr : r < rowDim lhs) (ht : t < k) :
    matmul (batch ++ [rowDim lhs, colDim rhs]) (batchShape rhs ++ [colDim rhs, k])
        (reshaped (matmulShape batch lhs rhs) (batch ++ [rowDim lhs, colDim rhs]) g)
        (swapped (batchShape rhs) (reshaped rhs (rhsMatrix rhs) x)) (b ++ [r, t]) =
      ∑ c ∈ Finset.range (colDim rhs),
        g (b ++ (matrixAxis lhs r ++ matrixAxis rhs c)) * x (rhsRead rhs b t c) := by
  have hentry := @matmul_entry R (batch ++ [rowDim lhs, colDim rhs])
    (batchShape rhs ++ [colDim rhs, k]) b r t _
    (reshaped (matmulShape batch lhs rhs) (batch ++ [rowDim lhs, colDim rhs]) g)
    (swapped (batchShape rhs) (reshaped rhs (rhsMatrix rhs) x))
  rw [matrixAxis_append, matrixAxis_append, getD_append_last] at hentry
  refine hentry.trans (Finset.sum_congr rfl fun c hc => ?_)
  have hc := Finset.mem_range.mp hc
  rw [lhsRead_append, rhsRead_append, broadcastIndex_self hb, reshaped_matmulShape g hb hr hc,
    swapped_entry (length_broadcastIndex (hb.length_eq ▸ hbatch.1)),
    reshaped_rhsMatrix x hpos hbatch hb (hk ▸ ht) hc]

/-- The left operand transposed times the gradient. -/
theorem rhsProduct_entry (hpos : lhs.length ≠ 0) (hbatch : BroadcastsTo (batchShape lhs) batch)
    (hk : k = lhs.getD (lhs.length - 1) 0) (hb : InBounds b batch) (ht : t < k)
    (hc : c < colDim rhs) :
    matmul (batchShape lhs ++ [k, rowDim lhs]) (batch ++ [rowDim lhs, colDim rhs])
        (swapped (batchShape lhs) (reshaped lhs (lhsMatrix lhs) x))
        (reshaped (matmulShape batch lhs rhs) (batch ++ [rowDim lhs, colDim rhs]) g)
        (b ++ [t, c]) =
      ∑ r ∈ Finset.range (rowDim lhs),
        x (lhsRead lhs b r t) * g (b ++ (matrixAxis lhs r ++ matrixAxis rhs c)) := by
  have hentry := @matmul_entry R (batchShape lhs ++ [k, rowDim lhs])
    (batch ++ [rowDim lhs, colDim rhs]) b t c _
    (swapped (batchShape lhs) (reshaped lhs (lhsMatrix lhs) x))
    (reshaped (matmulShape batch lhs rhs) (batch ++ [rowDim lhs, colDim rhs]) g)
  rw [matrixAxis_append, matrixAxis_append, getD_append_last] at hentry
  refine hentry.trans (Finset.sum_congr rfl fun r hr => ?_)
  have hr := Finset.mem_range.mp hr
  rw [lhsRead_append, rhsRead_append, broadcastIndex_self hb, reshaped_matmulShape g hb hr hc,
    swapped_entry (length_broadcastIndex (hb.length_eq ▸ hbatch.1)),
    reshaped_lhsMatrix x hpos hbatch hb hr (hk ▸ ht)]

end Entries

/-! ## The rule -/

/-- **The rule of `matmul` emits the two adjoints of the product**, with the types
of the operands, for all operands that the type rule accepts. -/
theorem reverseMatmul_adjoint {R : Type u} [CommRing R] {env : String → Option TensorType}
    {node : Node} {lhs rhs : Expr} {lhsTy rhsTy : TensorType}
    (hlhs : exprTy env lhs = .ok lhsTy) (hrhs : exprTy env rhs = .ok rhsTy)
    (hok : inferCallResults .matmul [lhsTy, rhsTy] = .ok [node.ty])
    (hfloat : node.ty.elem.isFloat = true)
    (A : Arithmetic R) (calls : Calls (Tensor R)) (values : Env (Tensor R)) {grad : Expr}
    {g a b : List ℕ → R} (hgrad : Evaluates A calls values grad node.ty g)
    (ha : Evaluates A calls values lhs lhsTy a) (hb : Evaluates A calls values rhs rhsTy b) :
    ∃ lhsGrad rhsGrad : Expr, ∃ ga gb : List ℕ → R,
      reverseCall env node .matmul [lhs, rhs] grad = .ok [(lhs, lhsGrad), (rhs, rhsGrad)] ∧
      Evaluates A calls values lhsGrad lhsTy ga ∧ Evaluates A calls values rhsGrad rhsTy gb ∧
      (∀ v, inner node.ty.shape g (matmul lhsTy.shape rhsTy.shape v b) =
        inner lhsTy.shape ga v) ∧
      ∀ w, inner node.ty.shape g (matmul lhsTy.shape rhsTy.shape a w) =
        inner rhsTy.shape gb w := by
  have hstops : callStopsGradient .matmul node.ty = false := by
    simp [callStopsGradient, hfloat]
  have hresult : matmulResultType lhsTy rhsTy = .ok node.ty := by
    simp only [inferCallResults, except_bind_eq_ok_iff, expectBinary_eq_ok_iff,
      except_pure_eq_ok_iff] at hok
    obtain ⟨⟨l, r⟩, htys, ty, hty, hsingle⟩ := hok
    obtain ⟨rfl, rfl⟩ : lhsTy = l ∧ rhsTy = r := by simpa using htys
    rwa [List.singleton_inj.mp hsingle] at hty
  obtain ⟨batch, h⟩ := matmulResultType_eq_ok_iff.mp hresult
  obtain ⟨elem, lhsShape⟩ := lhsTy
  obtain ⟨elem', rhsShape⟩ := rhsTy
  obtain rfl : elem = elem' := h.elem
  have hty : node.ty = ⟨elem, matmulShape batch lhsShape rhsShape⟩ := h.ty_eq
  have helem : elem.isNumeric = true := h.numeric
  have hl : lhsShape.length ≠ 0 := h.lhs_rank.1
  have hr : rhsShape.length ≠ 0 := h.rhs_rank.1
  obtain ⟨hlb, hrb⟩ := broadcastsTo_of_broadcastShapeSlices h.broadcast
  have hbatchRank : batch.length ≤ 4 := by
    rw [(broadcastShapeSlices_eq_ok_iff.mp h.broadcast).1]
    exact max_le (length_batchShape_le h.lhs_rank.2) (length_batchShape_le h.rhs_rank.2)
  generalize hk : lhsShape.getD (lhsShape.length - 1) 0 = k
  have hdim : k = contractedDim rhsShape := by
    have hcontracted := h.contracted
    rw [matmulLhsK_eq, matmulRhsK_eq] at hcontracted
    rw [← hk]
    exact hcontracted
  -- the promoted operands and the promoted gradient
  have hlhs' := evaluates_reshapeIfNeeded (prod_lhsMatrix lhsShape).symm ha
  have hrhs' := evaluates_reshapeIfNeeded (prod_rhsMatrix rhsShape).symm hb
  rw [hty] at hgrad
  have hgrad' := evaluates_reshapeIfNeeded (prod_matmulShape batch lhsShape rhsShape) hgrad
  have hlshape : lhsMatrix lhsShape = batchShape lhsShape ++ [rowDim lhsShape, k] := by
    rw [lhsMatrix_eq hl, hk]
  have hrshape : rhsMatrix rhsShape = batchShape rhsShape ++ [k, colDim rhsShape] := by
    rw [rhsMatrix_eq hr, ← hdim]
  -- the gradient of the left operand
  have hrhsT := evaluates_swapLastTwo (hrhs'.congr_type (by rw [hrshape]))
  have hlhsTypes := @matmulTypes_append elem batch (batchShape rhsShape) batch (rowDim lhsShape)
    (colDim rhsShape) k helem hbatchRank (length_batchShape_le h.rhs_rank.2)
    (broadcastShapeSlices_comm (broadcastShapeSlices_eq_right_iff.mpr hrb))
  have hlhsProduct := hgrad'.matmul (matmulResultType_eq_ok_iff.mpr ⟨batch, hlhsTypes⟩) hrhsT
  -- the gradient of the right operand
  have hlhsT := evaluates_swapLastTwo (hlhs'.congr_type (by rw [hlshape]))
  have hrhsTypes := @matmulTypes_append elem (batchShape lhsShape) batch batch k
    (rowDim lhsShape) (colDim rhsShape) helem (length_batchShape_le h.lhs_rank.2) hbatchRank
    (broadcastShapeSlices_eq_right_iff.mpr hlb)
  have hrhsProduct := hlhsT.matmul (matmulResultType_eq_ok_iff.mpr ⟨batch, hrhsTypes⟩) hgrad'
  generalize hspec : (⟨lhsShape.length == 1, rhsShape.length == 1,
    promotedLhsMatmulType ⟨elem, lhsShape⟩, promotedRhsMatmulType ⟨elem, rhsShape⟩,
    ⟨elem, batch ++ [rowDim lhsShape, colDim rhsShape]⟩⟩ : MatmulGradSpec) = spec
  obtain ⟨lhsDemoted, hlhsDemote, hlhsEval⟩ := exists_demoteLhsGrad spec (by rw [← hspec]) hlhsProduct
  obtain ⟨rhsDemoted, hrhsDemote, hrhsEval⟩ := exists_demoteRhsGrad spec (by rw [← hspec]) hrhsProduct
  -- the sums over the broadcast axes
  have hlhsShape := broadcastsTo_lhsShape hl hlb
  rw [hk] at hlhsShape
  have hrhsShape := broadcastsTo_rhsShape hr hrb
  rw [← hdim] at hrhsShape
  obtain ⟨lhsGrad, hlhsGrad⟩ := (@exists_unbroadcast_iff lhsDemoted
    ⟨elem, batch ++ (matrixAxis lhsShape (rowDim lhsShape) ++ [k])⟩ ⟨elem, lhsShape⟩).mpr
      ⟨rfl, hlhsShape⟩
  obtain ⟨rhsGrad, hrhsGrad⟩ := (@exists_unbroadcast_iff rhsDemoted
    ⟨elem, batch ++ ([k] ++ matrixAxis rhsShape (colDim rhsShape))⟩ ⟨elem, rhsShape⟩).mpr
      ⟨rfl, hrhsShape⟩
  refine ⟨lhsGrad, rhsGrad, _, _, ?_, evaluates_unbroadcast helem hlhsGrad hlhsEval,
    evaluates_unbroadcast helem hrhsGrad hrhsEval, fun v => ?_, fun w => ?_⟩
  · simp only [reverseCall, hstops, Bool.false_eq_true, if_false, reverseMatmul,
      except_bind_eq_ok_iff, except_pure_eq_ok_iff]
    have hlhsTy : spec.lhsMatrixTy = ⟨elem, lhsMatrix lhsShape⟩ := by
      rw [← hspec]
      exact promotedLhsMatmulType_eq _
    have hrhsTy : spec.rhsMatrixTy = ⟨elem, rhsMatrix rhsShape⟩ := by
      rw [← hspec]
      exact promotedRhsMatmulType_eq _
    have hgradTy : spec.gradMatrixTy = ⟨elem, batch ++ [rowDim lhsShape, colDim rhsShape]⟩ := by
      rw [← hspec]
    refine ⟨_, hlhs, _, hrhs, spec, hspec ▸ matmulGradSpec_new h, ?_⟩
    rw [hlhsTy, hrhsTy, hgradTy, hty]
    have hlhsSwap := swapLastTwo_eq (reshapeIfNeeded lhs ⟨elem, lhsShape⟩
      ⟨elem, lhsMatrix lhsShape⟩) elem (batchShape lhsShape) (rowDim lhsShape) k
    rw [← hlshape] at hlhsSwap
    have hrhsSwap := swapLastTwo_eq (reshapeIfNeeded rhs ⟨elem, rhsShape⟩
      ⟨elem, rhsMatrix rhsShape⟩) elem (batchShape rhsShape) k (colDim rhsShape)
    rw [← hrshape] at hrhsSwap
    exact ⟨_, hrhsSwap.2, _, hrhsSwap.1, _, matmulType_eq hlhsTypes, _, hlhsDemote, _, hlhsGrad, _,
      hlhsSwap.2, _, hlhsSwap.1, _, matmulType_eq hrhsTypes, _, hrhsDemote, _, hrhsGrad, rfl⟩
  · rw [hty]
    have hadjoint := @inner_matmul_lhs R _ batch lhsShape rhsShape g v b
      (reshaped (batch ++ [rowDim lhsShape, k])
        (batch ++ (matrixAxis lhsShape (rowDim lhsShape) ++ [k]))
        (matmul (batch ++ [rowDim lhsShape, colDim rhsShape])
          (batchShape rhsShape ++ [colDim rhsShape, k])
          (reshaped (matmulShape batch lhsShape rhsShape)
            (batch ++ [rowDim lhsShape, colDim rhsShape]) g)
          (swapped (batchShape rhsShape) (reshaped rhsShape (rhsMatrix rhsShape) b)))) hl hlb
    rw [hk] at hadjoint
    refine hadjoint fun i hi r hr' t ht => ?_
    rw [reshaped_lhsShape _ hi hr' ht, lhsProduct_entry hr hrb hdim hi hr' ht]
  · rw [hty]
    have hadjoint := @inner_matmul_rhs R _ batch lhsShape rhsShape g a w
      (reshaped (batch ++ [k, colDim rhsShape])
        (batch ++ ([k] ++ matrixAxis rhsShape (colDim rhsShape)))
        (matmul (batchShape lhsShape ++ [k, rowDim lhsShape])
          (batch ++ [rowDim lhsShape, colDim rhsShape])
          (swapped (batchShape lhsShape) (reshaped lhsShape (lhsMatrix lhsShape) a))
          (reshaped (matmulShape batch lhsShape rhsShape)
            (batch ++ [rowDim lhsShape, colDim rhsShape]) g))) hr hrb
    rw [hk, ← hdim] at hadjoint
    refine hadjoint rfl fun i hi t ht c hc => ?_
    rw [reshaped_rhsShape _ hi ht hc, rhsProduct_entry hl hlb hk.symm hi ht hc]

/-- A vector times three matrices of one column. -/
def vectorNode : Node :=
  ⟨"z", .call .matmul [.var "x", .var "y"], ⟨.f32, [3, 1]⟩⟩

theorem reverseMatmul_adjoint_vector :
    ∃ lhsGrad rhsGrad : Expr, ∃ ga gb : List ℕ → ℤ,
      reverseCall (pairEnv ⟨.f32, [2]⟩ ⟨.f32, [3, 2, 1]⟩) vectorNode .matmul [.var "x", .var "y"]
          (.var "g") = .ok [(.var "x", lhsGrad), (.var "y", rhsGrad)] ∧
      Evaluates ringOnly noCalls (pairValues ⟨.f32, [2]⟩ ⟨.f32, [3, 2, 1]⟩ ⟨.f32, [3, 1]⟩) lhsGrad
        ⟨.f32, [2]⟩ ga ∧
      Evaluates ringOnly noCalls (pairValues ⟨.f32, [2]⟩ ⟨.f32, [3, 2, 1]⟩ ⟨.f32, [3, 1]⟩) rhsGrad
        ⟨.f32, [3, 2, 1]⟩ gb ∧
      (∀ v, inner [3, 1] (fun _ => 1) (matmul [2] [3, 2, 1] v fun _ => 1) = inner [2] ga v) ∧
      ∀ w, inner [3, 1] (fun _ => 1) (matmul [2] [3, 2, 1] (fun _ => 1) w) =
        inner [3, 2, 1] gb w :=
  @reverseMatmul_adjoint ℤ _ (pairEnv ⟨.f32, [2]⟩ ⟨.f32, [3, 2, 1]⟩) vectorNode _ _ _ _ rfl rfl rfl
    rfl ringOnly noCalls (pairValues ⟨.f32, [2]⟩ ⟨.f32, [3, 2, 1]⟩ ⟨.f32, [3, 1]⟩) _ _ _ _
    ⟨_, rfl, rfl, fun _ _ => rfl⟩ ⟨_, rfl, rfl, fun _ _ => rfl⟩ ⟨_, rfl, rfl, fun _ _ => rfl⟩

end Knok.Autograd
