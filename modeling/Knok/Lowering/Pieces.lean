import Mathlib
import Knok.Lowering.TensorOps

/-!
# Slices and chains of insertions

A tensor is assembled by inserting pieces into an empty one, each after the
previous along one axis.  `exists_insertPieces` is the invariant of the chain:
what lies before the next offset has been written once, what lies after it not
at all.
-/

namespace Knok.Lowering

open Arrays Control

variable {R : Type}

/-- The computation succeeds with a value of the type that holds the array. -/
def Lowers (lowered : Except Error (Value R)) (ty : TensorType) (x : List ℕ → R) : Prop :=
  ∃ value, lowered = .ok value ∧ value.ty = ty ∧ value.Holds x

theorem Lowers.congr {lowered : Except Error (Value R)} {ty : TensorType} {x y : List ℕ → R}
    (h : Lowers lowered ty x) (hxy : ∀ i, InBounds i ty.shape → x i = y i) :
    Lowers lowered ty y := by
  obtain ⟨value, hok, rfl, hx⟩ := h
  refine ⟨value, hok, rfl, fun i hi => ?_⟩
  rw [hx i hi, hxy i hi]

/-- A value that is passed on. -/
theorem lowers_ok {value : Value R} {x : List ℕ → R} (hx : value.Holds x) :
    Lowers (.ok value) value.ty x :=
  ⟨value, rfl, rfl, hx⟩

/-! ## Sizes -/

theorem dimsFit_axisOffsets {rank axis start : ℕ} (hstart : start < 2 ^ 63) :
    DimsFit (axisOffsets rank axis start) := by
  refine DimsFit.set (fun dim hdim => ?_) axis hstart
  rw [List.eq_of_mem_replicate hdim]
  norm_num

/-- Sizes below those of a shape that fits. -/
theorem DimsFit.of_windowFits {offsets sizes shape : List ℕ} (h : DimsFit shape)
    (hfits : WindowFits offsets sizes shape) : DimsFit offsets ∧ DimsFit sizes := by
  obtain ⟨hoffsets, hsizes, hle⟩ := hfits
  constructor <;> intro n hn <;> obtain ⟨axis, haxis, rfl⟩ := List.mem_iff_getElem.mp hn
  · have := hle axis (hoffsets ▸ haxis)
    have := h.getD_lt axis
    rw [← List.getD_eq_getElem _ 0 haxis]
    omega
  · have := hle axis (hsizes ▸ haxis)
    have := h.getD_lt axis
    rw [← List.getD_eq_getElem _ 0 haxis]
    omega

/-! ## Slices -/

section Slices

variable {input : Value R} {x : List ℕ → R} {elem : ElementType} {shape : List ℕ}

theorem slice_lowers {starts size : List ℕ} (hty : input.ty = ⟨elem, shape⟩)
    (hkind : input.kind = .tensor) (hx : input.Holds x) (hdims : DimsFit shape)
    (hfits : WindowFits starts size shape) :
    Lowers (slice input ⟨elem, size⟩ starts) ⟨elem, size⟩ fun i => x (shiftBy starts i) := by
  obtain ⟨hstarts, hsize⟩ := hdims.of_windowFits hfits
  have hslice := appendTensorExtractSlice_ones hkind hx hstarts hsize (by rw [hty]; exact hfits)
  rw [hty] at hslice
  exact hslice

/-- **A slice along one axis.** -/
theorem sliceAxis_lowers {axis : ℕ} (start size : ℕ) (hty : input.ty = ⟨elem, shape⟩)
    (hx : input.Holds x) (hdims : DimsFit shape) (haxis : axis < shape.length)
    (hle : start + size ≤ shape.getD axis 0) :
    Lowers (sliceAxis input axis start size) ⟨elem, shape.set axis size⟩ fun i =>
      x (i.set axis (start + i.getD axis 0)) := by
  have hkind : input.kind = .tensor :=
    Value.kind_eq_tensor_of_rank (show axis < input.ty.rank by rw [hty]; exact haxis)
  have hslice := slice_lowers hty hkind hx hdims (windowFits_axisOffsets haxis hle)
  have hcode : sliceAxis input axis start size =
      slice input ⟨elem, shape.set axis size⟩ (axisOffsets shape.length axis start) := by
    rw [sliceAxis, hty]
    rfl
  rw [hcode]
  refine hslice.congr fun i hi => ?_
  have hlen : i.length = shape.length := by
    rw [hi.length_eq]
    exact List.length_set
  rw [← hlen, shiftBy_axisOffsets (hlen ▸ haxis)]

end Slices

/-! ## Insertions -/

/-- A piece of a tensor of some shape: its size along the axis and what it holds. -/
def IsPiece (elem : ElementType) (shape : List ℕ) (axis : ℕ) (value : Value R)
    (piece : ℕ × (List ℕ → R)) : Prop :=
  value.ty = ⟨elem, shape.set axis piece.1⟩ ∧ value.Holds piece.2

/-- The sum of the sizes of pieces. -/
def totalSize (pieces : List (ℕ × (List ℕ → R))) : ℕ := (pieces.map Prod.fst).sum

section Insertions

variable {elem : ElementType} {shape : List ℕ} {axis : ℕ}

/-- One insertion. -/
theorem exists_appendTensorInsertSlice {value acc : Value R} {piece : ℕ × (List ℕ → R)}
    {offset : ℕ} (hpiece : IsPiece elem shape axis value piece) (haxis : axis < shape.length)
    (hdims : DimsFit shape) (hle : offset + piece.1 ≤ shape.getD axis 0)
    (hty : acc.ty = ⟨elem, shape⟩) :
    ∃ next, appendTensorInsertSlice value acc ⟨elem, shape⟩
        (axisOffsets shape.length axis offset) = .ok next ∧ next.ty = ⟨elem, shape⟩ ∧
      ∀ i, InBounds i shape → next.cell i =
        if offset ≤ i.getD axis 0 ∧ i.getD axis 0 < offset + piece.1 then
          (acc.cell i).write (.written (piece.2 (i.set axis (i.getD axis 0 - offset))))
        else acc.cell i := by
  obtain ⟨hvalue, hholds⟩ := hpiece
  have hdim := hdims.getD_lt axis
  have hshape : value.ty.shape = shape.set axis piece.1 := by rw [hvalue]
  have helem : value.ty.elem = elem := by rw [hvalue]
  have hkind : value.kind = .tensor := Value.kind_eq_tensor_of_rank (show axis < value.ty.rank by
    rw [TensorType.rank, hshape, List.length_set]
    exact haxis)
  have hacc : acc.kind = .tensor := Value.kind_eq_tensor_of_rank (show axis < acc.ty.rank by
    rw [hty]
    exact haxis)
  refine ⟨.tensor ⟨elem, shape⟩ (fun i =>
    (window (axisOffsets shape.length axis offset) value.ty.shape i).elim (acc.cell i)
      fun j => (acc.cell i).write (value.cell j)) hdims, ?_, rfl, fun i hi => ?_⟩
  · simp only [appendTensorInsertSlice, except_bind_eq_ok_iff, denseI64Attr_eq_ok_iff,
      verify_eq_ok_iff, resultTensor_eq_ok_iff, exists_const]
    refine ⟨dimsFit_axisOffsets (by omega), ?_, ⟨hkind, hacc⟩, ⟨hty, helem, ?_⟩, hdims, ?_⟩
    · rw [hshape]
      exact hdims.set axis (by omega)
    · rw [hshape]
      exact windowFits_axisOffsets haxis hle
    · congr 1
      funext i
      cases window (axisOffsets shape.length axis offset) value.ty.shape i <;> rfl
  · rw [Value.tensor_cell, hshape, window_axisOffsets hi haxis]
    split_ifs with hin
    · have hread : InBounds (i.set axis (i.getD axis 0 - offset)) (shape.set axis piece.1) :=
        hi.set (by omega)
      rw [Option.elim_some, hholds _ (hshape ▸ hread)]
    · rfl

/-- **A chain of insertions.**  What lies before the offset stays; from it on
every element was unwritten and is now the pieces', one after the other. -/
theorem exists_insertPieces (haxis : axis < shape.length) (hdims : DimsFit shape)
    {values : List (Value R)} {pieces : List (ℕ × (List ℕ → R))}
    (hpieces : List.Forall₂ (IsPiece elem shape axis) values pieces) :
    ∀ {acc : Value R} {offset : ℕ}, acc.ty = ⟨elem, shape⟩ →
      offset + totalSize pieces ≤ shape.getD axis 0 →
      (∀ i, InBounds i shape → offset ≤ i.getD axis 0 → acc.cell i = .unwritten) →
      ∃ value, insertPieces ⟨elem, shape⟩ axis offset values acc = .ok value ∧
        value.ty = ⟨elem, shape⟩ ∧ ∀ i, InBounds i shape →
          value.cell i = if i.getD axis 0 < offset then acc.cell i
            else (joined axis pieces (i.getD axis 0 - offset) i).elim .unwritten .written := by
  induction hpieces with
  | nil =>
      intro acc offset hty _ hunwritten
      refine ⟨acc, rfl, hty, fun i hi => ?_⟩
      split_ifs with hlt
      · rfl
      · exact hunwritten i hi (Nat.not_lt.mp hlt)
  | @cons value piece values pieces hpiece hpieces ih =>
      intro acc offset hty hle hunwritten
      rw [totalSize, List.map_cons, List.sum_cons, ← totalSize] at hle
      obtain ⟨next, hnext, hnextTy, hcell⟩ :=
        exists_appendTensorInsertSlice hpiece haxis hdims (show offset + piece.1 ≤ _ by omega) hty
      have hsize : value.ty.dim axis = piece.1 := by
        rw [hpiece.1, TensorType.dim, getD_set_of_lt haxis, if_pos rfl]
      have hdim := hdims.getD_lt axis
      have hadd : usizeAdd offset (value.ty.dim axis) = offset + piece.1 := by
        rw [hsize]
        exact usizeAdd_of_lt (by omega)
      obtain ⟨result, hresult, hresultTy, hresultCell⟩ := @ih next (offset + piece.1) hnextTy
        (by omega) fun i hi hge => by
          rw [hcell i hi, if_neg (by omega)]
          exact hunwritten i hi (by omega)
      refine ⟨result, ?_, hresultTy, fun i hi => ?_⟩
      · have hnext' : appendTensorInsertSlice value acc ⟨elem, shape⟩
            (axisOffsets (TensorType.mk elem shape).rank axis offset) = .ok next := hnext
        rw [insertPieces, hnext']
        simp only [bind, Except.bind, hadd]
        exact hresult
      · rw [hresultCell i hi, hcell i hi]
        obtain ⟨size, x⟩ := piece
        rw [joined_cons]
        by_cases hbefore : i.getD axis 0 < offset
        · rw [if_pos hbefore, if_pos (by dsimp only; omega), if_neg (by omega)]
        · rw [if_neg hbefore]
          by_cases hin : i.getD axis 0 < offset + size
          · rw [if_pos hin, if_pos ⟨Nat.not_lt.mp hbefore, hin⟩, if_pos (by omega),
              hunwritten i hi (Nat.not_lt.mp hbefore), Cell.unwritten_write]
            rfl
          · rw [if_neg hin, if_neg (show ¬ i.getD axis 0 - offset < size by omega),
              Nat.sub_sub]

/-- **A chain of insertions into an empty tensor** writes every element once. -/
theorem insertPieces_lowers (haxis : axis < shape.length) (hdims : DimsFit shape)
    {values : List (Value R)} {pieces : List (ℕ × (List ℕ → R))}
    (hpieces : List.Forall₂ (IsPiece elem shape axis) values pieces)
    (htotal : totalSize pieces = shape.getD axis 0) {y : List ℕ → R}
    (hy : ∀ i, InBounds i shape → joined axis pieces (i.getD axis 0) i = some (y i)) :
    Lowers (appendTensorEmpty ⟨elem, shape⟩ >>= insertPieces ⟨elem, shape⟩ axis 0 values)
      ⟨elem, shape⟩ y := by
  let empty : Value R := .tensor ⟨elem, shape⟩ (fun _ => .unwritten) hdims
  obtain ⟨value, hvalue, hty, hcell⟩ := exists_insertPieces haxis hdims hpieces
    (show empty.ty = _ from rfl) (show 0 + totalSize pieces ≤ _ by omega) fun i _ _ => rfl
  refine ⟨value, ?_, hty, fun i hi => ?_⟩
  · rw [appendTensorEmpty_of (show DimsFit (TensorType.mk elem shape).shape from hdims)]
    exact hvalue
  rw [hty] at hi
  rw [hcell i hi, if_neg (Nat.not_lt_zero _), Nat.sub_zero, hy i hi]
  rfl

/-- The sizes of the pieces, as the code adds them. -/
theorem usizeSum_dims (haxis : axis < shape.length) {values : List (Value R)}
    {pieces : List (ℕ × (List ℕ → R))}
    (hpieces : List.Forall₂ (IsPiece elem shape axis) values pieces)
    (htotal : totalSize pieces < 2 ^ 64) :
    usizeSum (values.map (·.ty.dim axis)) = totalSize pieces := by
  have hsizes : values.map (·.ty.dim axis) = pieces.map Prod.fst := by
    clear htotal
    induction hpieces with
    | nil => rfl
    | cons hpiece _ ih =>
        rw [List.map_cons, List.map_cons, ih, hpiece.1, TensorType.dim, getD_set_of_lt haxis,
          if_pos rfl]
  rw [usizeSum_eq, hsizes]
  exact Nat.mod_eq_of_lt htotal

/-- **`concat_many`.** -/
theorem concatMany_lowers (haxis : axis < shape.length) {values : List (Value R)}
    {pieces : List (ℕ × (List ℕ → R))}
    (hpieces : List.Forall₂ (IsPiece elem shape axis) values pieces) (hne : values ≠ [])
    (hdims : DimsFit (shape.set axis (totalSize pieces))) {y : List ℕ → R}
    (hy : ∀ i, InBounds i (shape.set axis (totalSize pieces)) →
      joined axis pieces (i.getD axis 0) i = some (y i)) :
    Lowers (concatMany values axis) ⟨elem, shape.set axis (totalSize pieces)⟩ y := by
  have haxis' : axis < (shape.set axis (totalSize pieces)).length := by rwa [List.length_set]
  have hsize : (shape.set axis (totalSize pieces)).getD axis 0 = totalSize pieces := by
    rw [getD_set_of_lt haxis, if_pos rfl]
  have htotal : totalSize pieces < 2 ^ 63 := hsize ▸ hdims.getD_lt axis
  have hpieces' : List.Forall₂ (IsPiece elem (shape.set axis (totalSize pieces)) axis)
      values pieces := by
    refine hpieces.imp fun value piece h => ⟨?_, h.2⟩
    rw [h.1, List.set_set]
  have hchain := insertPieces_lowers haxis' hdims hpieces' hsize.symm hy
  cases hpieces with
  | nil => exact absurd rfl hne
  | @cons first piece values pieces hfirst hrest =>
      have hsum := usizeSum_dims haxis (.cons hfirst hrest) (by omega)
      have hcode : concatMany (first :: values) axis =
          appendTensorEmpty ⟨elem, shape.set axis (totalSize (piece :: pieces))⟩ >>=
            insertPieces ⟨elem, shape.set axis (totalSize (piece :: pieces))⟩ axis 0
              (first :: values) := by
        rw [concatMany, hsum, hfirst.1, List.set_set]
      rw [hcode]
      exact hchain

/-- **`concat` of two tensors.** -/
theorem concat_lowers {lhs rhs : Value R} {size size' : ℕ} {x x' : List ℕ → R}
    (haxis : axis < shape.length) (hlhs : IsPiece elem shape axis lhs (size, x))
    (hrhs : IsPiece elem shape axis rhs (size', x'))
    (hdims : DimsFit (shape.set axis (size + size'))) :
    Lowers (concat lhs rhs axis) ⟨elem, shape.set axis (size + size')⟩ fun i =>
      if i.getD axis 0 < size then x i else x' (i.set axis (i.getD axis 0 - size)) := by
  have haxis' : axis < (shape.set axis (size + size')).length := by rwa [List.length_set]
  have hsize : (shape.set axis (size + size')).getD axis 0 = size + size' := by
    rw [getD_set_of_lt haxis, if_pos rfl]
  have htotal : size + size' < 2 ^ 63 := hsize ▸ hdims.getD_lt axis
  have hwiden : ∀ {value : Value R} {piece : ℕ × (List ℕ → R)},
      IsPiece elem shape axis value piece →
        IsPiece elem (shape.set axis (size + size')) axis value piece := by
    intro value piece h
    refine ⟨?_, h.2⟩
    rw [h.1, List.set_set]
  have hpieces : List.Forall₂ (IsPiece elem (shape.set axis (size + size')) axis) [lhs, rhs]
      [(size, x), (size', x')] := .cons (hwiden hlhs) (.cons (hwiden hrhs) .nil)
  have hsum : totalSize [(size, x), (size', x')] = size + size' := by simp [totalSize]
  have hldim : lhs.ty.dim axis = size := by
    rw [hlhs.1, TensorType.dim, getD_set_of_lt haxis, if_pos rfl]
  have hrdim : rhs.ty.dim axis = size' := by
    rw [hrhs.1, TensorType.dim, getD_set_of_lt haxis, if_pos rfl]
  have hadd : usizeAdd size size' = size + size' := usizeAdd_of_lt (by omega)
  have hsub : usizeSub (size + size') size' = size := by
    rw [usizeSub_of_le (Nat.le_add_left _ _) (by omega), Nat.add_sub_cancel]
  -- the first piece is inserted at offset zero along every axis
  have hcode : concat lhs rhs axis = appendTensorEmpty ⟨elem, shape.set axis (size + size')⟩ >>=
      insertPieces ⟨elem, shape.set axis (size + size')⟩ axis 0 [lhs, rhs] := by
    have hzero : usizeAdd 0 size = size := by
      rw [usizeAdd_of_lt (by omega), Nat.zero_add]
    have hdim : (⟨elem, shape.set axis (size + size')⟩ : TensorType).dim axis = size + size' :=
      hsize
    have hset : lhs.ty.shape.set axis (size + size') = shape.set axis (size + size') := by
      rw [hlhs.1, List.set_set]
    have helem : lhs.ty.elem = elem := by rw [hlhs.1]
    simp only [concat, insertPieces, hldim, hrdim, hadd, hset, helem, hdim, hsub, hzero,
      axisOffsets_zero]
    exact bind_congr fun empty => bind_congr fun first => (bind_pure _).symm
  rw [hcode]
  refine insertPieces_lowers haxis' hdims hpieces (hsum.trans hsize.symm) fun i hi => ?_
  have hlt := hi.getD_lt haxis'
  rw [hsize] at hlt
  rw [joined_pair _ _ _ hlt, set_getD_self]

end Insertions

end Knok.Lowering
