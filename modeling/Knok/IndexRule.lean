import Mathlib
import Knok.MovementRule
import Knok.Arrays.Indexing

/-!
# The type rules of indexed reads

`gather` replaces an axis by the axes of the index array; `take_along_axis` takes
an index array that agrees with the operand outside the axis.  Both results have
the axes before the indexed one, a middle run, and the axes after.
-/

namespace Knok

open Arrays Control

/-- The indexed axis of an indexed read. -/
def CallOp.indexAxis : CallOp → Option ℕ
  | .gather _ axis | .takeAlongAxis axis => some axis
  | _ => none

/-- The position of the operand that an indexed read takes. -/
def CallOp.readPosition (op : CallOp) (inputTy indicesTy : TensorType) (indices : List ℕ → ℤ) :
    List ℕ → List ℕ :=
  match op with
  | .gather _ axis => gatherPosition axis indicesTy.rank (inputTy.dim axis) indices
  | .takeAlongAxis axis => alongPosition axis (inputTy.dim axis) indices
  | _ => id

/-- What accepted operands of an indexed read satisfy. -/
structure IndexTypes (op : CallOp) (inputTy indicesTy ty : TensorType) (pre mid suf : List ℕ)
    (dim : ℕ) : Prop where
  input_shape : inputTy.shape = pre ++ dim :: suf
  index_elem : indicesTy.elem = .i32 ∨ indicesTy.elem = .i64
  ty_eq : ty = ⟨inputTy.elem, pre ++ (mid ++ suf)⟩
  layout : op = .gather ty pre.length ∧ indicesTy.shape = mid ∨
    op = .takeAlongAxis pre.length ∧ mid.length = 1 ∧ indicesTy.shape = pre ++ (mid ++ suf)

theorem checkTakeAlongDims_eq_ok_iff {axis : ℕ} {input : List ℕ} :
    ∀ {indices : List ℕ} {start : ℕ}, input.length = indices.length →
      (checkTakeAlongDims axis start (input.zip indices) = .ok () ↔
        ∀ k < input.length, start + k ≠ axis → input.getD k 0 = indices.getD k 0) := by
  induction input with
  | nil =>
      intro indices start _
      exact iff_of_true rfl fun k hk => absurd hk (Nat.not_lt_zero k)
  | cons dim input ih =>
      intro indices start hlen
      cases indices with
      | nil => cases hlen
      | cons dim' indices =>
          rw [List.zip_cons_cons, checkTakeAlongDims, List.length_cons, Nat.forall_lt_succ_left]
          rw [List.length_cons, List.length_cons, Nat.add_right_cancel_iff] at hlen
          have hrest := @ih indices (start + 1) hlen
          simp only [List.getD_cons_zero, List.getD_cons_succ, Nat.add_zero]
          split_ifs with hwrong
          · exact iff_of_false nofun fun h => hwrong.2 (h.1 hwrong.1)
          · rw [hrest]
            have hhead : start ≠ axis → dim = dim' := fun hne =>
              not_not.mp fun hdim => hwrong ⟨hne, hdim⟩
            rw [and_iff_right hhead]
            refine forall₂_congr fun k _ => ?_
            rw [show start + 1 + k = start + (k + 1) by omega]

/-- A shape, split at an axis. -/
theorem exists_split {shape : List ℕ} {axis : ℕ} (haxis : axis < shape.length) :
    ∃ pre suf, shape = pre ++ shape.getD axis 0 :: suf ∧ axis = pre.length ∧
      pre = shape.take axis ∧ suf = shape.drop (axis + 1) := by
  refine ⟨shape.take axis, shape.drop (axis + 1), ?_, ?_, rfl, rfl⟩
  · rw [List.getD_eq_getElem _ _ haxis, List.getElem_cons_drop, List.take_append_drop]
  · rw [List.length_take, min_eq_left haxis.le]

/-- **The type rules of indexed reads.** -/
theorem exists_indexTypes {op : CallOp} {inputTy indicesTy ty : TensorType}
    (hop : op.indexAxis.isSome = true) (hok : inferCallResults op [inputTy, indicesTy] = .ok [ty]) :
    ∃ pre mid suf dim, IndexTypes op inputTy indicesTy ty pre mid suf dim := by
  cases op with
  | gather target axis =>
      simp only [inferCallResults, gatherResultType, except_bind_eq_ok_iff, expectBinary_eq_ok_iff,
        except_pure_eq_ok_iff, expectAxis_eq_ok_iff, expectIndexElement, failIf_eq_ok_iff,
        exists_const, bne_eq_false_iff_eq, Bool.not_eq_false', Bool.or_eq_true,
        beq_iff_eq] at hok
      obtain ⟨⟨input, indices⟩, htys, ty', ⟨haxis, hindex, helem, hshape, rfl⟩, hsingle⟩ := hok
      obtain ⟨rfl, rfl⟩ : inputTy = input ∧ indicesTy = indices := by simpa using htys
      obtain rfl := List.singleton_inj.mp hsingle
      obtain ⟨pre, suf, hinput, rfl, hpre, hsuf⟩ := exists_split haxis
      refine ⟨pre, indicesTy.shape, suf, inputTy.shape.getD pre.length 0, hinput, hindex, ?_,
        .inl ⟨rfl, rfl⟩⟩
      rw [← hpre, ← hsuf, List.append_assoc] at hshape
      rw [hshape, helem]
  | takeAlongAxis axis =>
      simp only [inferCallResults, takeAlongAxisResultType, except_bind_eq_ok_iff,
        expectBinary_eq_ok_iff, except_pure_eq_ok_iff, expectAxis_eq_ok_iff, expectIndexElement,
        failIf_eq_ok_iff, exists_const, bne_eq_false_iff_eq, Bool.not_eq_false', Bool.or_eq_true,
        beq_iff_eq] at hok
      obtain ⟨⟨input, indices⟩, htys, ty', ⟨haxis, hindex, hrank, _, hdims, rfl⟩,
        hsingle⟩ := hok
      obtain ⟨rfl, rfl⟩ : inputTy = input ∧ indicesTy = indices := by simpa using htys
      obtain rfl := List.singleton_inj.mp hsingle
      have hrank : inputTy.shape.length = indicesTy.shape.length := hrank
      have hdims := (checkTakeAlongDims_eq_ok_iff hrank).mp hdims
      have hindices : indicesTy.shape = inputTy.shape.set axis (indicesTy.shape.getD axis 0) := by
        refine ext_getD (by rw [List.length_set]; exact hrank.symm) fun k hk => ?_
        have hk : k < inputTy.shape.length := hrank ▸ hk
        rw [getD_set_of_lt haxis]
        split_ifs with heq
        · rw [heq]
        · exact (hdims k hk (by omega)).symm
      obtain ⟨pre, suf, hinput, rfl, -, -⟩ := exists_split haxis
      have hsplit : indicesTy.shape = pre ++ ([indicesTy.shape.getD pre.length 0] ++ suf) := by
        conv_lhs => rw [hindices, hinput]
        rw [List.set_append_right _ _ le_rfl, Nat.sub_self]
        rfl
      exact ⟨pre, [indicesTy.shape.getD pre.length 0], suf, inputTy.shape.getD pre.length 0, hinput,
        hindex, by rw [← hsplit], .inr ⟨rfl, rfl, hsplit⟩⟩
  | _ => cases hop

namespace IndexTypes

variable {op : CallOp} {inputTy indicesTy ty : TensorType} {pre mid suf : List ℕ} {dim : ℕ}

theorem dim_eq (h : IndexTypes op inputTy indicesTy ty pre mid suf dim) :
    inputTy.dim pre.length = dim := by
  unfold TensorType.dim
  rw [h.input_shape, List.getD_append_right _ _ _ _ le_rfl, Nat.sub_self]
  rfl

theorem indexAxis_eq (h : IndexTypes op inputTy indicesTy ty pre mid suf dim) :
    op.indexAxis = some pre.length := by
  rcases h.layout with ⟨rfl, -⟩ | ⟨rfl, -, -⟩ <;> rfl

/-- The index that an entry of the result reads at. -/
def indexAt (op : CallOp) (rank : ℕ) (indices : List ℕ → ℤ) (i : List ℕ) : ℤ :=
  match op with
  | .gather _ axis => indices ((i.drop axis).take rank)
  | _ => indices i

theorem readPosition_eq (h : IndexTypes op inputTy indicesTy ty pre mid suf dim)
    (indices : List ℕ → ℤ) :
    op.readPosition inputTy indicesTy indices =
      indexedPosition pre.length mid.length dim (indexAt op indicesTy.rank indices) := by
  have hdim := h.dim_eq
  rcases h.layout with ⟨rfl, hmid⟩ | ⟨rfl, hlen, -⟩
  · show gatherPosition pre.length indicesTy.shape.length (inputTy.dim pre.length) indices = _
    rw [hdim, hmid]
    unfold gatherPosition indexAt TensorType.rank
    rw [hmid]
  · show alongPosition pre.length (inputTy.dim pre.length) indices = _
    rw [hdim, hlen]
    rfl

/-- Indices in range are read at every position of the result. -/
theorem indexAt_inRange (h : IndexTypes op inputTy indicesTy ty pre mid suf dim)
    {indices : List ℕ → ℤ}
    (hrange : ∀ t, InBounds t indicesTy.shape → InRange dim (indices t)) {i : List ℕ}
    (hi : InBounds i (pre ++ (mid ++ suf))) : InRange dim (indexAt op indicesTy.rank indices i) := by
  rcases h.layout with ⟨rfl, hmid⟩ | ⟨rfl, -, hall⟩
  · obtain ⟨p, t, s, rfl, hp, ht, -⟩ := exists_runs hi
    have hread : ((p ++ (t ++ s)).drop pre.length).take indicesTy.rank = t := by
      rw [TensorType.rank, hmid, ← hp.length_eq, List.drop_left, ← ht.length_eq, List.take_left]
    show InRange dim (indices (((p ++ (t ++ s)).drop pre.length).take indicesTy.rank))
    rw [hread]
    exact hrange t (hmid ▸ ht)
  · exact hrange i (hall ▸ hi)

end IndexTypes

end Knok
