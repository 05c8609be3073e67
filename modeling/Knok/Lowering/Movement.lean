import Mathlib
import Knok.MovementRule
import Knok.Lowering.Pieces

/-!
# The lowerings of data movement are exact

Each lowering succeeds and its result holds, element by element, what the
operation's law reads.  The results are put together operation by operation from
slices and chains of insertions and joined over the cases of `MovementTyped`.
-/

namespace Knok.Lowering

open Arrays Control

variable {R : Type}

/-! ## Permutations of axes -/

section Permutations

variable {input : Value R} {x : List ℕ → R} {elem : ElementType} {shape axes : List ℕ}

theorem permute_lowers (hty : input.ty = ⟨elem, shape⟩) (hx : input.Holds x)
    (hperm : axes.Perm (List.range shape.length)) :
    Lowers (permute input ⟨elem, axes.map fun axis => shape.getD axis 0⟩ axes)
      ⟨elem, axes.map fun axis => shape.getD axis 0⟩ fun i => x (permutePosition axes i) := by
  have hlen : axes.length = shape.length := by simpa using hperm.length_eq
  have hshape : input.ty.shape = shape := by rw [hty]
  unfold permute
  split_ifs with hid
  · have hmap : axes.map (fun axis => shape.getD axis 0) = shape := by
      rw [hid, hlen, map_getD_range]
    rw [hmap]
    refine hty ▸ (lowers_ok hx).congr fun i hi => ?_
    rw [hid, permutePosition_range]
    rw [hi.length_eq, hshape, hlen]
  · have hkind : input.kind = .tensor := by
      refine Value.kind_eq_tensor fun hnil => hid ?_
      rw [List.eq_nil_of_length_eq_zero (hlen.trans (by rw [← hshape, hnil]; rfl))]
      rfl
    have hverify : axes.Perm (List.range input.ty.rank) ∧
        (⟨elem, axes.map fun axis => shape.getD axis 0⟩ : TensorType) =
          ⟨input.ty.elem, axes.map input.ty.dim⟩ := by
      rw [hty]
      exact ⟨hperm, rfl⟩
    have hfit : DimsFit (axes.map fun axis => shape.getD axis 0) :=
      DimsFit.map_getD (hshape ▸ input.dims_fit) axes
    refine ⟨.tensor ⟨elem, axes.map fun axis => shape.getD axis 0⟩ (fun i =>
      input.cell ((List.range input.ty.rank).map fun axis => i.getD (axes.idxOf axis) 0)) hfit,
      ?_, rfl, fun i hi => ?_⟩
    · rw [appendTensorEmpty_of hfit]
      simp only [appendLinalgTranspose, except_bind_eq_ok_iff, verify_eq_ok_iff, Except.ok.injEq,
        exists_const, exists_eq_left']
      exact ⟨⟨hkind, rfl, rfl⟩, hverify, resultTensor_of _⟩
    · have hread := inBounds_permutePosition hperm hi
      have hrank : input.ty.rank = axes.length := by rw [TensorType.rank, hshape, hlen]
      rw [Value.tensor_cell, hrank]
      exact hx _ (hshape ▸ hread)

theorem permuteDims_lowers (hty : input.ty = ⟨elem, shape⟩) (hx : input.Holds x)
    (hperm : axes.Perm (List.range shape.length)) :
    Lowers (permuteDims input axes) ⟨elem, axes.map fun axis => shape.getD axis 0⟩
      fun i => x (permutePosition axes i) := by
  have hcode : permuteDims input axes =
      permute input ⟨elem, axes.map fun axis => shape.getD axis 0⟩ axes := by
    rw [permuteDims, hty]
    rfl
  rw [hcode]
  exact permute_lowers hty hx hperm

theorem transpose_lowers (hty : input.ty = ⟨elem, shape⟩) (hx : input.Holds x)
    (hperm : (transposeAxes shape.length axes).Perm (List.range shape.length)) :
    Lowers (transpose input axes)
      ⟨elem, (transposeAxes shape.length axes).map fun axis => shape.getD axis 0⟩
      fun i => x (permutePosition (transposeAxes shape.length axes) i) := by
  have hrank : input.ty.rank = shape.length := by rw [hty]; rfl
  unfold transpose
  split_ifs with hsmall hempty
  · -- one axis at most has one permutation
    have hid : transposeAxes shape.length axes = List.range shape.length := by
      rw [hrank] at hsmall
      interval_cases hlen : shape.length
      · exact List.perm_nil.mp hperm
      · exact List.perm_singleton.mp hperm
    have hpermute := permute_lowers hty hx hperm
    rw [permute, if_pos (by rw [hid, List.length_range])] at hpermute
    exact hpermute
  · have haxes : transposeAxes shape.length axes = (List.range shape.length).reverse :=
      if_pos hempty
    rw [haxes] at hperm ⊢
    rw [hrank, hty, reverse_eq_map_getD]
    exact permute_lowers hty hx hperm
  · have haxes : transposeAxes shape.length axes = axes := if_neg hempty
    rw [haxes] at hperm ⊢
    exact permuteDims_lowers hty hx hperm

theorem swapaxes_lowers {axis0 axis1 : ℕ} (hty : input.ty = ⟨elem, shape⟩) (hx : input.Holds x)
    (haxis0 : axis0 < shape.length) (haxis1 : axis1 < shape.length) :
    Lowers (swapaxes input axis0 axis1) ⟨elem, swapDims shape axis0 axis1⟩ fun i =>
      x (permutePosition (swapDims (List.range shape.length) axis0 axis1) i) := by
  have hrank : input.ty.rank = shape.length := by rw [hty]; rfl
  rw [swapaxes, hrank, ← map_swapDims_range haxis0 haxis1]
  exact permuteDims_lowers hty hx (swapDims_perm haxis0 haxis1)

theorem moveaxis_lowers {source destination : ℕ} (hty : input.ty = ⟨elem, shape⟩)
    (hx : input.Holds x) (hsource : source < shape.length)
    (hdestination : destination < shape.length) :
    Lowers (moveaxis input source destination)
      ⟨elem, (moveaxisAxes shape.length source destination).map fun axis => shape.getD axis 0⟩
      fun i => x (permutePosition (moveaxisAxes shape.length source destination) i) := by
  have hrank : input.ty.rank = shape.length := by rw [hty]; rfl
  rw [moveaxis, hrank]
  exact permuteDims_lowers hty hx (moveaxisAxes_perm hsource hdestination)

end Permutations

/-! ## Splitting and taking -/

section Shapes

variable {input : Value R} {x : List ℕ → R} {elem : ElementType} {shape : List ℕ} {axis : ℕ}

/-- The sections of `split`, from an offset on. -/
theorem exists_splitFrom (hty : input.ty = ⟨elem, shape⟩) (hx : input.Holds x)
    (hdims : DimsFit shape) (haxis : axis < shape.length) {sections : List ℕ} :
    ∀ {offset : ℕ}, offset + sections.sum ≤ shape.getD axis 0 →
      ∃ values, splitFrom input axis offset sections = .ok values ∧
        values.map (·.ty) = sections.map (fun size => ⟨elem, shape.set axis size⟩) ∧
        ∀ (k : ℕ) (value : Value R), values[k]? = some value → value.Holds fun i =>
          x (i.set axis (offset + (sections.take k).sum + i.getD axis 0)) := by
  induction sections with
  | nil => exact fun _ => ⟨[], rfl, rfl, fun k value h => by simp at h⟩
  | cons size sections ih =>
      intro offset hle
      rw [List.sum_cons] at hle
      have hdim := hdims.getD_lt axis
      have hadd : usizeAdd offset size = offset + size := usizeAdd_of_lt (by omega)
      obtain ⟨value, hvalue, hvalueTy, hholds⟩ :=
        sliceAxis_lowers offset size hty hx hdims haxis (by omega)
      obtain ⟨values, hvalues, htys, hrest⟩ := @ih (offset + size) (by omega)
      refine ⟨value :: values, ?_, ?_, fun k other hk => ?_⟩
      · simp only [splitFrom, hvalue, hadd, hvalues, bind, Except.bind, pure, Except.pure]
      · rw [List.map_cons, List.map_cons, htys, hvalueTy]
      · cases k with
        | zero =>
            obtain rfl := Option.some.inj hk
            simpa using hholds
        | succ k =>
            have := hrest k other hk
            rw [List.take_succ_cons, List.sum_cons, ← Nat.add_assoc]
            exact this

theorem take_lowers {index : ℕ} (hty : input.ty = ⟨elem, shape⟩) (hx : input.Holds x)
    (hdims : DimsFit shape) (haxis : axis < shape.length) (hindex : index < shape.getD axis 0) :
    Lowers (take input axis index) ⟨elem, shape.eraseIdx axis⟩ fun i =>
      x (i.insertIdx axis index) := by
  obtain ⟨sliced, hslice, hslicedTy, hholds⟩ :=
    sliceAxis_lowers index 1 hty hx hdims haxis (by omega)
  have hlen : (shape.eraseIdx axis).length = shape.length - 1 := by
    rw [List.length_eraseIdx, if_pos haxis]
  have herase : (shape.set axis 1).eraseIdx axis = shape.eraseIdx axis := List.eraseIdx_set_eq
  have hne : sliced.ty ≠ ⟨elem, shape.eraseIdx axis⟩ := by
    intro heq
    rw [hslicedTy, TensorType.mk.injEq] at heq
    have := congrArg List.length heq.2
    rw [List.length_set, hlen] at this
    omega
  have hcode : take input axis index =
      if (⟨elem, shape.eraseIdx axis⟩ : TensorType).rank = 0 then
        reshape sliced ⟨elem, shape.eraseIdx axis⟩
      else appendCollapseShape sliced ⟨elem, shape.eraseIdx axis⟩
        (collapseReassociationForRemovedAxis shape.length axis) := by
    have helem : sliced.ty.elem = elem := by rw [hslicedTy]
    have hshape : sliced.ty.shape.eraseIdx axis = shape.eraseIdx axis := by rw [hslicedTy, herase]
    have hrank : sliced.ty.rank = shape.length := by
      rw [hslicedTy]
      exact List.length_set
    simp only [take, hslice, bind, Except.bind, helem, hshape, hrank, if_neg hne]
  rw [hcode]
  split_ifs with hzero
  · -- a vector: its only element is taken out
    have hone : shape.length = 1 := by
      have : (shape.eraseIdx axis).length = 0 := hzero
      omega
    obtain ⟨dim, rfl⟩ := List.length_eq_one_iff.mp hone
    obtain rfl : axis = 0 := by simpa using haxis
    have hcount : elementCount sliced.ty = 1 := by
      rw [hslicedTy]
      rfl
    have hsplat := splat_eq hholds (.inr hcount) (show sliced.ty.elem =
      (⟨elem, []⟩ : TensorType).elem by rw [hslicedTy]) dimsFit_nil
    have hreshape : reshape sliced ⟨elem, []⟩ = splat sliced ⟨elem, []⟩ := by
      have hne : sliced.ty ≠ ⟨elem, []⟩ := hne
      rw [reshape, if_neg hne, if_pos (.inl rfl)]
    refine ⟨_, hreshape.trans hsplat, rfl, fun i hi => ?_⟩
    have hi : InBounds i [] := hi
    cases hi
    rw [hslicedTy]
    rfl
  · have hrank : 2 ≤ shape.length := by
      have : (shape.eraseIdx axis).length ≠ 0 := hzero
      omega
    have hkind : sliced.kind = .tensor :=
      Value.kind_eq_tensor_of_rank (show axis < sliced.ty.rank by
        rw [hslicedTy, TensorType.rank, List.length_set]
        exact haxis)
    have hgroups : Reassociates (collapseReassociationForRemovedAxis shape.length axis)
        sliced.ty.shape (shape.eraseIdx axis) := by
      rw [hslicedTy]
      exact reassociates_removedAxis hrank haxis
    have hcollapse := appendCollapseShape_eq hkind hgroups
      (hdims.eraseIdx axis)
    rw [show sliced.ty.elem = elem by rw [hslicedTy]] at hcollapse
    refine ⟨_, hcollapse, rfl, fun i hi => ?_⟩
    have hi : InBounds i (shape.eraseIdx axis) := hi
    have hilen := hi.length_eq
    have hinsert : (shape.eraseIdx axis).insertIdx axis 1 = shape.set axis 1 :=
      insertIdx_eraseIdx_self haxis 1
    have hread : InBounds (i.insertIdx axis 0) (shape.set axis 1) :=
      hinsert ▸ hi.insertIdx (by omega) Nat.zero_lt_one
    have hravel := @ravel_insertIdx_one axis (shape.eraseIdx axis) i (by omega) hilen
    rw [hinsert] at hravel
    rw [Value.tensor_cell, hslicedTy, ← hravel, unravel_ravel hread,
      hholds _ (by rw [hslicedTy]; exact hread)]
    dsimp only
    rw [getD_insertIdx_self (by omega), Nat.add_zero, set_insertIdx_self (by omega)]

/-- A unit axis, inserted. -/
theorem expand_lowers (hty : input.ty = ⟨elem, shape⟩) (hx : input.Holds x)
    (hdims : DimsFit (shape.insertIdx axis 1)) (hrank : 0 < shape.length)
    (haxis : axis ≤ shape.length) :
    Lowers (appendExpandShape input ⟨elem, shape.insertIdx axis 1⟩
      (expandReassociationForInsertedAxis shape.length axis)) ⟨elem, shape.insertIdx axis 1⟩
      fun i => x (i.eraseIdx axis) := by
  have hkind : input.kind = .tensor := Value.kind_eq_tensor_of_rank (show 0 < input.ty.rank by
    rw [hty]
    exact hrank)
  have hlen : (shape.insertIdx axis 1).length = shape.length + 1 :=
    List.length_insertIdx_of_le_length haxis 1
  have hone : (shape.insertIdx axis 1).getD axis 0 = 1 := getD_insertIdx_self haxis 1
  have hgroups := reassociates_insertedAxis hrank haxis
  refine ⟨.tensor ⟨elem, shape.insertIdx axis 1⟩ (fun i =>
    input.cell (unravel input.ty.shape (ravel (shape.insertIdx axis 1) i))) hdims, ?_, rfl,
    fun i hi => ?_⟩
  · simp only [appendExpandShape, except_bind_eq_ok_iff, denseI64Attr_eq_ok_iff,
      verify_eq_ok_iff, exists_const, hty]
    exact ⟨hdims, hkind, ⟨trivial, hgroups⟩, resultTensor_of _⟩
  · have hi : InBounds i (shape.insertIdx axis 1) := hi
    have hread : InBounds (i.eraseIdx axis) shape := by
      have := hi.eraseIdx axis
      rwa [List.eraseIdx_insertIdx_self] at this
    have hcoord := hi.getD_lt (show axis < (shape.insertIdx axis 1).length by omega)
    rw [hone, Nat.lt_one_iff] at hcoord
    have hback : (i.eraseIdx axis).insertIdx axis 0 = i := by
      rw [← hcoord]
      exact insertIdx_eraseIdx_of_getD (by rw [hi.length_eq]; omega)
    have hravel := @ravel_insertIdx_one axis shape (i.eraseIdx axis) haxis hread.length_eq
    rw [hback] at hravel
    rw [Value.tensor_cell, hty, hravel, unravel_ravel hread]
    exact hx _ (by rw [hty]; exact hread)

theorem stack_lowers {lhs rhs : Value R} {x' : List ℕ → R} (hlhs : lhs.ty = ⟨elem, shape⟩)
    (hrhs : rhs.ty = ⟨elem, shape⟩) (hx : lhs.Holds x) (hx' : rhs.Holds x')
    (hdims : DimsFit shape) (hrank : 0 < shape.length) (haxis : axis ≤ shape.length) :
    Lowers (stack lhs rhs axis) ⟨elem, shape.insertIdx axis 2⟩ fun i =>
      if i.getD axis 0 < 1 then x (i.eraseIdx axis) else x' (i.eraseIdx axis) := by
  have hlen : (shape.insertIdx axis 1).length = shape.length + 1 :=
    List.length_insertIdx_of_le_length haxis 1
  have hset : ∀ size, (shape.insertIdx axis 1).set axis size = shape.insertIdx axis size :=
    set_insertIdx_self haxis 1
  have hinsert : ∀ size, size < 2 ^ 63 → DimsFit (shape.insertIdx axis size) := by
    intro size hsize dim hdim
    rcases (List.mem_insertIdx haxis).mp hdim with rfl | hmem
    · exact hsize
    · exact hdims dim hmem
  obtain ⟨first, hfirst, hfirstTy, hfirstHolds⟩ :=
    expand_lowers hlhs hx (hinsert 1 (by norm_num)) hrank haxis
  obtain ⟨second, hsecond, hsecondTy, hsecondHolds⟩ :=
    expand_lowers hrhs hx' (hinsert 1 (by norm_num)) hrank haxis
  have hfirstPiece : IsPiece elem (shape.insertIdx axis 1) axis first
      (1, fun i => x (i.eraseIdx axis)) := ⟨by rw [hset]; exact hfirstTy, hfirstHolds⟩
  have hsecondPiece : IsPiece elem (shape.insertIdx axis 1) axis second
      (1, fun i => x' (i.eraseIdx axis)) := ⟨by rw [hset]; exact hsecondTy, hsecondHolds⟩
  have hconcat := concat_lowers (by omega) hfirstPiece hsecondPiece
    (by rw [hset]; exact hinsert _ (by norm_num))
  rw [hset] at hconcat
  have hcode : stack lhs rhs axis = concat first second axis := by
    have hlrank : lhs.ty.rank = shape.length := by rw [hlhs]; rfl
    have hrrank : rhs.ty.rank = shape.length := by rw [hrhs]; rfl
    have helem : lhs.ty.elem = elem := by rw [hlhs]
    have hshape : lhs.ty.shape = shape := by rw [hlhs]
    simp only [stack, helem, hshape, hlrank, hrrank, hfirst, hsecond, bind, Except.bind]
  rw [hcode]
  refine hconcat.congr fun i _ => ?_
  rw [List.eraseIdx_set_eq]

end Shapes

/-! ## Copies along an axis -/

section Copies

variable {input : Value R} {x : List ℕ → R} {elem : ElementType} {shape : List ℕ} {axis : ℕ}

/-- Each step of a traversal that succeeds with a related value. -/
theorem exists_mapM {α β : Type} {f : α → Except Error β} {p : β → α → Prop} {as : List α}
    (h : ∀ a ∈ as, ∃ b, f a = .ok b ∧ p b a) :
    ∃ bs, as.mapM f = .ok bs ∧ List.Forall₂ p bs as := by
  induction as with
  | nil => exact ⟨[], rfl, .nil⟩
  | cons a as ih =>
      obtain ⟨b, hb, hp⟩ := h a List.mem_cons_self
      obtain ⟨bs, hbs, hps⟩ := ih fun a ha => h a (List.mem_cons_of_mem _ ha)
      exact ⟨b :: bs, by simp [List.mapM_cons, hb, hbs, bind, Except.bind, pure, Except.pure],
        .cons hp hps⟩

theorem totalSize_map {ι : Type} (size : ℕ) (f : ι → List ℕ → R) (xs : List ι) :
    totalSize (xs.map fun k => (size, f k)) = xs.length * size := by
  rw [totalSize, List.map_map]
  simp [Function.comp_def, List.map_const', List.sum_replicate]

/-- Pieces of one size, by number. -/
theorem joined_map {ι : Type} {size : ℕ} (hsize : 0 < size) (f : ι → List ℕ → R) (xs : List ι)
    (i : List ℕ) (n : ℕ) : joined axis (xs.map fun k => (size, f k)) n i =
      (xs[n / size]?).map fun k => f k (i.set axis (n % size)) := by
  have huniform := @joined_uniform R axis size hsize i (xs.map f) n
  rw [List.map_map] at huniform
  rw [show (fun k => (size, f k)) = (fun g : List ℕ → R => (size, g)) ∘ f from rfl, huniform,
    List.getElem?_map, Option.map_map]
  rfl

/-- **Copies of one tensor, joined along an axis.** -/
theorem concatMany_replicate_lowers {count : ℕ} (hty : input.ty = ⟨elem, shape⟩)
    (hx : input.Holds x) (haxis : axis < shape.length) (hcount : 0 < count)
    (hdims : DimsFit (shape.set axis (shape.getD axis 0 * count))) :
    Lowers (concatMany (List.replicate count input) axis)
      ⟨elem, shape.set axis (shape.getD axis 0 * count)⟩ fun i =>
        x (i.set axis (i.getD axis 0 % shape.getD axis 0)) := by
  have hpieces : List.Forall₂ (IsPiece elem shape axis) (List.replicate count input)
      ((List.range count).map fun _ => (shape.getD axis 0, x)) := by
    rw [show (fun _ : ℕ => (shape.getD axis 0, x)) = Function.const ℕ (shape.getD axis 0, x)
      from rfl, List.map_const, List.length_range]
    refine List.forall₂_iff_get.mpr ⟨by simp, fun k hk hk' => ?_⟩
    simp only [List.get_eq_getElem, List.getElem_replicate]
    exact ⟨by rw [hty, set_getD_self], hx⟩
  have htotal : totalSize ((List.range count).map fun _ => (shape.getD axis 0, x)) =
      shape.getD axis 0 * count := by
    rw [totalSize_map, List.length_range, Nat.mul_comm]
  have hne : List.replicate count input ≠ [] := by
    rw [Ne, List.replicate_eq_nil_iff]
    omega
  have hmany := @concatMany_lowers R elem shape axis haxis _ _ hpieces hne
    (by rw [htotal]; exact hdims)
    (fun i => x (i.set axis (i.getD axis 0 % shape.getD axis 0))) fun i hi => by
      have hlt := hi.getD_lt (show axis < (shape.set axis _).length by rwa [List.length_set])
      rw [htotal, getD_set_of_lt haxis, if_pos rfl] at hlt
      have hpos : 0 < shape.getD axis 0 := Nat.pos_of_mul_pos_right (Nat.zero_lt_of_lt hlt)
      have hdiv : i.getD axis 0 / shape.getD axis 0 < count := Nat.div_lt_of_lt_mul hlt
      rw [joined_map hpos, List.getElem?_range hdiv, Option.map_some]
  rw [htotal] at hmany
  exact hmany

/-- A type with an empty dimension has no elements to write. -/
theorem appendTensorEmpty_lowers {ty : TensorType} {y : List ℕ → R} (hfit : DimsFit ty.shape)
    (hempty : ∀ i, ¬ InBounds i ty.shape) : Lowers (appendTensorEmpty ty) ty y :=
  ⟨_, appendTensorEmpty_of hfit, rfl, fun i hi => absurd hi (hempty i)⟩

theorem not_inBounds_of_getD_eq_zero (haxis : axis < shape.length)
    (hzero : shape.getD axis 0 = 0) (i : List ℕ) : ¬ InBounds i shape := by
  intro hi
  have := hi.getD_lt haxis
  omega

theorem repeat_lowers {count : ℕ} (hty : input.ty = ⟨elem, shape⟩) (hx : input.Holds x)
    (hdims : DimsFit shape) (hdims' : DimsFit (shape.set axis (shape.getD axis 0 * count)))
    (haxis : axis < shape.length) :
    Lowers (repeat_ input axis count) ⟨elem, shape.set axis (shape.getD axis 0 * count)⟩ fun i =>
      x (i.set axis (i.getD axis 0 / count)) := by
  have hdim : input.ty.dim axis = shape.getD axis 0 := by rw [hty]; rfl
  have hsize : (shape.set axis (shape.getD axis 0 * count)).getD axis 0 =
      shape.getD axis 0 * count := by rw [getD_set_of_lt haxis, if_pos rfl]
  have hfit := hdims'.getD_lt axis
  rw [hsize] at hfit
  unfold repeat_
  rw [hdim]
  split_ifs with hempty hone
  · rw [usizeMul_of_lt (by omega), hty]
    refine appendTensorEmpty_lowers hdims' (@not_inBounds_of_getD_eq_zero _ axis ?_ ?_)
    · rwa [List.length_set]
    · rw [hsize]
      rcases hempty with hzero | hzero <;> rw [hzero] <;> simp
  · subst hone
    rw [Nat.mul_one, set_getD_self]
    refine hty ▸ (lowers_ok hx).congr fun i _ => ?_
    rw [Nat.div_one, set_getD_self]
  · push Not at hempty
    obtain ⟨hcount, hdimNe⟩ := hempty
    have hle : count ≤ shape.getD axis 0 * count := Nat.le_mul_of_pos_left _ (by omega)
    have hunits : ∀ index ∈ List.range (shape.getD axis 0), ∃ value,
        (do
          let unit ← sliceAxis input axis index 1
          concatMany (List.replicate count unit) axis) = .ok value ∧
        IsPiece elem shape axis value (count, fun i => x (i.set axis index)) := by
      intro index hindex
      have hlt := List.mem_range.mp hindex
      obtain ⟨unit, hunit, hunitTy, hunitHolds⟩ :=
        sliceAxis_lowers index 1 hty hx hdims haxis (by omega)
      have hunitDim : (shape.set axis 1).getD axis 0 = 1 := by
        rw [getD_set_of_lt haxis, if_pos rfl]
      obtain ⟨value, hvalue, hvalueTy, hholds⟩ := @concatMany_replicate_lowers R unit _ elem
        (shape.set axis 1) axis count hunitTy hunitHolds (by rwa [List.length_set]) (by omega)
        (by
          rw [hunitDim, List.set_set, Nat.one_mul]
          exact hdims.set axis (by omega))
      refine ⟨value, by simp [hunit, hvalue, bind, Except.bind], ?_, fun i hi => ?_⟩
      · rw [hvalueTy, hunitDim, List.set_set, Nat.one_mul]
      · rw [hholds i hi]
        dsimp only
        have hilen : axis < i.length := by
          rw [hi.length_eq, hvalueTy]
          simpa using haxis
        rw [hunitDim, Nat.mod_one, List.set_set, getD_set_of_lt hilen, if_pos rfl, Nat.add_zero]
    obtain ⟨pieces, hpieces, hall⟩ := exists_mapM hunits
    have hforall : List.Forall₂ (IsPiece elem shape axis) pieces
        ((List.range (shape.getD axis 0)).map fun index =>
          (count, fun i => x (i.set axis index))) := by
      rw [List.forall₂_map_right_iff]
      exact hall
    have htotal : totalSize ((List.range (shape.getD axis 0)).map fun index =>
        (count, fun i => x (i.set axis index))) = shape.getD axis 0 * count := by
      rw [totalSize_map, List.length_range]
    have hne : pieces ≠ [] := by
      rintro rfl
      have := hforall.length_eq
      rw [List.length_nil, List.length_map, List.length_range] at this
      exact hdimNe this.symm
    have hmany := @concatMany_lowers R elem shape axis haxis _ _ hforall hne
      (by rw [htotal]; exact hdims') (fun i => x (i.set axis (i.getD axis 0 / count))) fun i hi => by
        have hlt := hi.getD_lt (show axis < (shape.set axis _).length by rwa [List.length_set])
        rw [htotal, hsize, Nat.mul_comm] at hlt
        rw [joined_map (by omega), List.getElem?_range (Nat.div_lt_of_lt_mul hlt),
          Option.map_some, List.set_set]
    rw [htotal] at hmany
    rw [hpieces]
    exact hmany

/-- The rounds of `tile`, from an axis on: the axes before it are done. -/
theorem tileAxes_lowers {multiples : List ℕ} (hpos : ∀ multiple ∈ multiples, multiple ≠ 0) :
    ∀ {done todo : List ℕ} {input : Value R} {x : List ℕ → R},
      multiples.length = todo.length → input.ty = ⟨elem, done ++ todo⟩ → input.Holds x →
      DimsFit (done ++ todo) → DimsFit (done ++ List.zipWith (· * ·) todo multiples) →
      Lowers (tileAxes done.length multiples input)
        ⟨elem, done ++ List.zipWith (· * ·) todo multiples⟩ fun i =>
          x (i.take done.length ++ List.zipWith (· % ·) (i.drop done.length) todo) := by
  induction multiples with
  | nil =>
      intro done todo input x hlen hty hx _ _
      obtain rfl := List.eq_nil_of_length_eq_zero hlen.symm
      refine hty ▸ (lowers_ok hx).congr fun i hi => ?_
      rw [hty] at hi
      have hi : InBounds i (done ++ []) := hi
      have hilen := hi.length_eq
      rw [List.append_nil] at hilen
      rw [List.zipWith_nil_right, List.append_nil, List.take_of_length_le hilen.le]
  | cons multiple multiples ih =>
      intro done todo input x hlen hty hx hdims hdims'
      cases todo with
      | nil => simp at hlen
      | cons dim todo =>
          rw [List.length_cons, List.length_cons, Nat.add_right_cancel_iff] at hlen
          rw [List.forall_mem_cons] at hpos
          obtain ⟨hmultiple, hpos⟩ := hpos
          rw [List.zipWith_cons_cons] at hdims' ⊢
          have hnext : ∀ {size : ℕ} (rest : List ℕ), done ++ size :: rest =
              (done ++ [size]) ++ rest := fun rest => by rw [List.append_assoc]; rfl
          have hnextLen : ∀ size : ℕ, (done ++ [size]).length = done.length + 1 :=
            fun size => List.length_append
          have hdone : DimsFit (done ++ (dim * multiple) :: todo) := by
            intro size hsize
            rcases List.mem_append.mp hsize with hmem | hmem
            · exact hdims size (List.mem_append_left _ hmem)
            · rcases List.mem_cons.mp hmem with rfl | hmem
              · exact hdims' _ (List.mem_append_right _ List.mem_cons_self)
              · exact hdims size (List.mem_append_right _ (List.mem_cons_of_mem _ hmem))
          -- a position of the result: before this axis, along it, after it
          have hsplit : ∀ {i rest : List ℕ}, InBounds i (done ++ (dim * multiple) :: rest) →
              ∃ u k v, i = u ++ k :: v ∧ u.length = done.length ∧ k < dim * multiple := by
            intro i rest hi
            have htake := List.forall₂_take_append _ _ _ hi
            have hdrop := List.forall₂_drop_append _ _ _ hi
            cases hk : i.drop done.length with
            | nil => rw [hk] at hdrop; cases hdrop
            | cons k v =>
                rw [hk] at hdrop
                cases hdrop with
                | cons hlt _ =>
                    exact ⟨_, k, v, by rw [← hk, List.take_append_drop], htake.length_eq, hlt⟩
          have htake : ∀ {u v : List ℕ} {k : ℕ}, (u ++ k :: v).take (u.length + 1) = u ++ [k] :=
            List.take_length_add_append 1
          have hdrop : ∀ {u v : List ℕ} {k : ℕ}, (u ++ k :: v).drop (u.length + 1) = v :=
            List.drop_length_add_append 1
          unfold tileAxes
          split_ifs with hone
          · obtain rfl : multiple = 1 := by omega
            rw [Nat.mul_one] at *
            have hrest := @ih hpos (done ++ [dim]) todo input x hlen (by rw [hty, hnext]) hx
              (by rwa [← hnext]) (by rwa [← hnext])
            rw [← hnext, hnextLen] at hrest
            refine hrest.congr fun i hi => ?_
            obtain ⟨u, k, v, rfl, hu, hk⟩ := hsplit hi
            rw [← hu, List.take_left, List.drop_left, List.zipWith_cons_cons, Nat.mod_eq_of_lt hk,
              htake, hdrop, List.append_assoc]
            rfl
          · have haxis : done.length < (done ++ dim :: todo).length := by simp
            have hdim : (done ++ dim :: todo).getD done.length 0 = dim := by simp
            have hset : ∀ size, (done ++ dim :: todo).set done.length size =
                done ++ size :: todo := fun size => by simp
            have hcopies := @concatMany_replicate_lowers R input x elem (done ++ dim :: todo)
              done.length multiple hty hx haxis (by omega) (by rw [hdim, hset]; exact hdone)
            rw [hdim, hset] at hcopies
            obtain ⟨value, hvalue, hvalueTy, hholds⟩ := hcopies
            have hrest := @ih hpos (done ++ [dim * multiple]) todo value _ hlen
              (by rw [hvalueTy, hnext]) hholds (by rwa [← hnext]) (by rwa [← hnext])
            rw [← hnext, hnextLen] at hrest
            simp only [hvalue, bind, Except.bind]
            refine hrest.congr fun i hi => ?_
            obtain ⟨u, k, v, rfl, hu, hk⟩ := hsplit hi
            rw [← hu, List.take_left, List.drop_left, List.zipWith_cons_cons, htake, hdrop]
            congr 1
            simp

/-- A product with a zero. -/
theorem exists_getD_zipWith_mul_eq_zero {multiples : List ℕ} (hlen : multiples.length = shape.length)
    (hzero : 0 ∈ multiples) :
    ∃ axis < shape.length, (List.zipWith (· * ·) shape multiples).getD axis 0 = 0 := by
  obtain ⟨axis, haxis, heq⟩ := List.mem_iff_getElem.mp hzero
  refine ⟨axis, by omega, ?_⟩
  rw [getD_zipWith _ hlen.symm (by omega), List.getD_eq_getElem multiples _ haxis, heq,
    Nat.mul_zero]

theorem tile_lowers {multiples : List ℕ} (hty : input.ty = ⟨elem, shape⟩) (hx : input.Holds x)
    (hdims : DimsFit shape) (hdims' : DimsFit (List.zipWith (· * ·) shape multiples))
    (hlen : multiples.length = shape.length) :
    Lowers (tile input multiples) ⟨elem, List.zipWith (· * ·) shape multiples⟩ fun i =>
      x (List.zipWith (· % ·) i shape) := by
  have hrank : input.ty.rank = shape.length := by rw [hty]; rfl
  unfold tile
  rw [hrank]
  split_ifs with hscalar hzero
  · obtain rfl := List.eq_nil_of_length_eq_zero hscalar
    refine hty ▸ (lowers_ok hx).congr fun i hi => ?_
    rw [hty] at hi
    cases hi
    rfl
  · have hmul : List.zipWith usizeMul input.ty.shape multiples =
        List.zipWith (· * ·) shape multiples := by
      rw [hty]
      refine ext_getD (by simp) fun axis haxis => ?_
      rw [List.length_zipWith] at haxis
      have haxis : axis < shape.length := lt_of_lt_of_le haxis (min_le_left _ _)
      have hdim := hdims'.getD_lt axis
      rw [getD_zipWith _ hlen.symm haxis] at hdim
      rw [getD_zipWith _ hlen.symm haxis, getD_zipWith _ hlen.symm haxis,
        usizeMul_of_lt (by omega)]
    obtain ⟨axis, haxis, hdim⟩ := exists_getD_zipWith_mul_eq_zero hlen hzero
    rw [hmul, show input.ty.elem = elem by rw [hty]]
    refine appendTensorEmpty_lowers hdims' (not_inBounds_of_getD_eq_zero ?_ hdim)
    show axis < (List.zipWith (· * ·) shape multiples).length
    rw [List.length_zipWith]
    omega
  · have hrounds := @tileAxes_lowers R elem multiples (fun multiple hmem heq => hzero (heq ▸ hmem))
      [] shape input x hlen hty hx hdims hdims'
    exact hrounds

/-- The rounds of `flip`. -/
theorem flipLoop_lowers {axes : List ℕ} (hdims : DimsFit shape) (hnodup : axes.Nodup)
    (hlt : ∀ axis ∈ axes, axis < shape.length) :
    ∀ {input : Value R} {x : List ℕ → R}, input.ty = ⟨elem, shape⟩ → input.Holds x →
      Lowers (flipLoop axes input) ⟨elem, shape⟩ fun i => x (flipPosition axes shape i) := by
  induction axes with
  | nil =>
      intro input x hty hx
      refine hty ▸ (lowers_ok hx).congr fun i hi => ?_
      rw [hty] at hi
      rw [flipPosition_nil hi]
  | cons axis axes ih =>
      intro input x hty hx
      rw [List.nodup_cons] at hnodup
      obtain ⟨hnot, hnodup⟩ := hnodup
      rw [List.forall_mem_cons] at hlt
      obtain ⟨haxis, hlt⟩ := hlt
      have hdim : input.ty.dim axis = shape.getD axis 0 := by rw [hty]; rfl
      unfold flipLoop
      rw [hdim]
      split_ifs with hsmall
      · refine (ih hnodup hlt hty hx).congr fun i hi => ?_
        have hi : InBounds i shape := hi
        have hflip := inBounds_flipPosition axes hi
        have hzero := hflip.getD_lt haxis
        have hself := set_getD_self (flipPosition axes shape i) axis
        rw [flipPosition_cons haxis hnot, show shape.getD axis 0 - 1 -
          (flipPosition axes shape i).getD axis 0 = (flipPosition axes shape i).getD axis 0 by omega,
          hself]
      · have hunits : ∀ index ∈ (List.range (shape.getD axis 0)).reverse, ∃ value,
            sliceAxis input axis index 1 = .ok value ∧
              IsPiece elem shape axis value
                (1, fun i => x (i.set axis (index + i.getD axis 0))) := by
          intro index hindex
          have := List.mem_range.mp (List.mem_reverse.mp hindex)
          exact sliceAxis_lowers index 1 hty hx hdims haxis (by omega)
        obtain ⟨pieces, hpieces, hall⟩ := exists_mapM hunits
        have hforall : List.Forall₂ (IsPiece elem shape axis) pieces
            ((List.range (shape.getD axis 0)).reverse.map fun index =>
              (1, fun i => x (i.set axis (index + i.getD axis 0)))) := by
          rw [List.forall₂_map_right_iff]
          exact hall
        have htotal : totalSize ((List.range (shape.getD axis 0)).reverse.map fun index =>
            (1, fun i => x (i.set axis (index + i.getD axis 0)))) = shape.getD axis 0 := by
          rw [totalSize_map, List.length_reverse, List.length_range, Nat.mul_one]
        have hne : pieces ≠ [] := by
          rintro rfl
          have := hforall.length_eq
          rw [List.length_nil, List.length_map, List.length_reverse, List.length_range] at this
          omega
        obtain ⟨value, hvalue, hvalueTy, hholds⟩ := @concatMany_lowers R elem shape axis haxis _ _
          hforall hne (by rw [htotal, set_getD_self]; exact hdims)
          (fun i => x (i.set axis (shape.getD axis 0 - 1 - i.getD axis 0))) fun i hi => by
            rw [htotal, set_getD_self] at hi
            have hcoord := hi.getD_lt haxis
            have hilen : axis < i.length := by rw [hi.length_eq]; exact haxis
            rw [joined_map Nat.zero_lt_one, Nat.div_one, Nat.mod_one,
              List.getElem?_eq_getElem (by simpa using hcoord), Option.map_some,
              List.getElem_reverse, List.getElem_range, List.length_range, List.set_set,
              getD_set_of_lt hilen, if_pos rfl, Nat.add_zero]
        rw [htotal, set_getD_self] at hvalueTy
        simp only [hpieces, hvalue, bind, Except.bind]
        refine (ih hnodup hlt hvalueTy hholds).congr fun i hi => ?_
        rw [flipPosition_cons haxis hnot]

theorem flip_lowers {axes : List ℕ} (hty : input.ty = ⟨elem, shape⟩) (hx : input.Holds x)
    (hdims : DimsFit shape) (hnodup : (flipAxes shape.length axes).Nodup)
    (hlt : ∀ axis ∈ flipAxes shape.length axes, axis < shape.length) :
    Lowers (flip input axes) ⟨elem, shape⟩ fun i =>
      x (flipPosition (flipAxes shape.length axes) shape i) := by
  have hrank : input.ty.rank = shape.length := by rw [hty]; rfl
  rw [flip, hrank]
  exact flipLoop_lowers hdims hnodup hlt hty hx

theorem roll_lowers {shift : ℕ} (hty : input.ty = ⟨elem, shape⟩) (hx : input.Holds x)
    (hdims : DimsFit shape) (haxis : axis < shape.length) :
    Lowers (roll input axis shift) ⟨elem, shape⟩ fun i =>
      x (i.set axis ((i.getD axis 0 + (shape.getD axis 0 - shift % shape.getD axis 0)) %
        shape.getD axis 0)) := by
  have hdim : input.ty.dim axis = shape.getD axis 0 := by rw [hty]; rfl
  -- when nothing moves, the law reads the position itself
  have hstay : (∀ n < shape.getD axis 0,
      (n + (shape.getD axis 0 - shift % shape.getD axis 0)) % shape.getD axis 0 = n) →
      Lowers (.ok input) ⟨elem, shape⟩ fun i =>
        x (i.set axis ((i.getD axis 0 + (shape.getD axis 0 - shift % shape.getD axis 0)) %
          shape.getD axis 0)) := by
    intro h
    refine hty ▸ (lowers_ok hx).congr fun i hi => ?_
    rw [hty] at hi
    rw [h _ (hi.getD_lt haxis), set_getD_self]
  unfold roll
  rw [hdim]
  dsimp only
  split_ifs with hsmall hzero
  · refine hstay fun n hn => ?_
    have hone : shape.getD axis 0 = 1 := by omega
    rw [hone, Nat.mod_one]
    omega
  · refine hstay fun n hn => ?_
    rw [hzero, Nat.sub_zero, Nat.add_mod_right, Nat.mod_eq_of_lt hn]
  · have hoffset : shift % shape.getD axis 0 < shape.getD axis 0 := Nat.mod_lt _ (by omega)
    generalize shift % shape.getD axis 0 = offset at hzero hoffset ⊢
    obtain ⟨high, hhigh, hhighTy, hhighHolds⟩ :=
      sliceAxis_lowers (shape.getD axis 0 - offset) offset hty hx hdims haxis (by omega)
    obtain ⟨low, hlow, hlowTy, hlowHolds⟩ :=
      sliceAxis_lowers 0 (shape.getD axis 0 - offset) hty hx hdims haxis (by omega)
    have hsum : offset + (shape.getD axis 0 - offset) = shape.getD axis 0 := by omega
    have hconcat := concat_lowers haxis
      (show IsPiece elem shape axis high (offset, _) from ⟨hhighTy, hhighHolds⟩)
      (show IsPiece elem shape axis low (shape.getD axis 0 - offset, _) from ⟨hlowTy, hlowHolds⟩)
      (by rw [hsum, set_getD_self]; exact hdims)
    rw [hsum, set_getD_self] at hconcat
    simp only [hhigh, hlow, bind, Except.bind]
    refine hconcat.congr fun i hi => ?_
    have hi : InBounds i shape := hi
    have hcoord := hi.getD_lt haxis
    have hilen : axis < i.length := by rw [hi.length_eq]; exact haxis
    split_ifs with hbefore
    · rw [Nat.mod_eq_of_lt (by omega), Nat.add_comm]
    · rw [List.set_set, getD_set_of_lt hilen, if_pos rfl, Nat.zero_add,
        show i.getD axis 0 + (shape.getD axis 0 - offset) =
          i.getD axis 0 - offset + shape.getD axis 0 by omega, Nat.add_mod_right,
        Nat.mod_eq_of_lt (by omega)]

end Copies

/-! ## Padding and reshaping -/

section Pad

variable {input : Value R} {x : List ℕ → R} {elem : ElementType} {shape size : List ℕ}

/-- `tensor.pad` with zeros. -/
theorem appendTensorPad_lowers [Zero R] {lows highs : List ℕ} (hty : input.ty = ⟨elem, shape⟩)
    (hkind : input.kind = .tensor) (hx : input.Holds x) (hlows : DimsFit lows)
    (hhighs : DimsFit highs) (hlowsLen : lows.length = shape.length)
    (hhighsLen : highs.length = shape.length) (hsize : DimsFit size)
    (hsum : size = List.zipWith (· + ·) (shiftBy lows shape) highs) :
    Lowers (appendTensorPad input ⟨elem, size⟩ lows highs (.scalar elem (.written 0)))
      ⟨elem, size⟩ (pull (window lows shape) x) := by
  have hrank : input.ty.rank = shape.length := by rw [hty]; rfl
  refine ⟨.tensor ⟨elem, size⟩ (fun i => (window lows input.ty.shape i).elim
    ((Value.scalar elem (.written 0)).cell []) input.cell) hsize, ?_, rfl, fun i hi => ?_⟩
  · have hverify : elem = input.ty.elem ∧ elem = elem ∧ lows.length = input.ty.rank ∧
        highs.length = input.ty.rank ∧
        size = List.zipWith (· + ·) (shiftBy lows input.ty.shape) highs := by
      rw [hrank, hty]
      exact ⟨rfl, rfl, hlowsLen, hhighsLen, hsum⟩
    simp only [appendTensorPad, except_bind_eq_ok_iff, denseI64Attr_eq_ok_iff,
      verify_eq_ok_iff, resultTensor_eq_ok_iff, exists_const]
    refine ⟨hlows, hhighs, ⟨hkind, rfl⟩, hverify, hsize, ?_⟩
    congr 1
    funext i
    cases window lows input.ty.shape i <;> rfl
  · rw [Value.tensor_cell, show input.ty.shape = shape by rw [hty]]
    cases hwindow : window lows shape i with
    | none =>
        rw [pull_none hwindow]
        rfl
    | some j =>
        have hread := ((window_eq_some_iff hlowsLen).mp hwindow).1
        rw [pull_some hwindow]
        exact hx j (by rw [hty]; exact hread)

theorem pad_lowers [Zero R] {lows : List ℕ} (hty : input.ty = ⟨elem, shape⟩) (hx : input.Holds x)
    (hfits : WindowFits lows shape size) (hdims : DimsFit size) :
    Lowers (pad input ⟨elem, size⟩ lows) ⟨elem, size⟩ (pull (window lows shape) x) := by
  obtain ⟨hlows, hshape, hle⟩ := hfits
  have hcoord : ∀ axis < size.length, (List.zipWith usizeSub (List.zipWith usizeSub size shape)
      lows).getD axis 0 = size.getD axis 0 - shape.getD axis 0 - lows.getD axis 0 := by
    intro axis haxis
    have hfit := hdims.getD_lt axis
    have := hle axis haxis
    have hinner : (List.zipWith usizeSub size shape).length = size.length := by
      rw [List.length_zipWith]
      omega
    have hsub : usizeSub (size.getD axis 0) (shape.getD axis 0) =
        size.getD axis 0 - shape.getD axis 0 := usizeSub_of_le (by omega) (by omega)
    rw [getD_zipWith _ (by omega) (hinner ▸ haxis), getD_zipWith _ hshape.symm haxis, hsub,
      usizeSub_of_le (by omega) (by omega)]
  have hhighsLen : (List.zipWith usizeSub (List.zipWith usizeSub size shape) lows).length =
      size.length := by
    rw [List.length_zipWith, List.length_zipWith]
    omega
  unfold pad
  rw [show input.ty.shape = shape by rw [hty]]
  dsimp only
  generalize List.zipWith usizeSub (List.zipWith usizeSub size shape) lows = highs at *
  split_ifs with hzero
  · have hzeroAt : ∀ {values : List ℕ}, (∀ value ∈ values, value = 0) →
        ∀ axis < values.length, values.getD axis 0 = 0 := by
      intro values h axis haxis
      rw [List.getD_eq_getElem _ _ haxis]
      exact h _ (List.getElem_mem haxis)
    have hsame : shape = size := by
      refine ext_getD hshape fun axis haxis => ?_
      have hlow := hzeroAt hzero.1 axis (by omega)
      have hhigh := hzeroAt hzero.2 axis (by omega)
      have := hle axis (by omega)
      have := hcoord axis (by omega)
      omega
    subst hsame
    refine hty ▸ (lowers_ok hx).congr fun i hi => ?_
    rw [hty] at hi
    have hi : InBounds i shape := hi
    refine (pull_some ((window_eq_some_iff hlows).mpr ⟨hi, ?_⟩)).symm
    have hlen := hi.length_eq
    refine ext_getD (by rw [length_shiftBy (by omega)]) fun axis haxis => ?_
    rw [getD_shiftBy (by omega), hzeroAt hzero.1 axis (by omega), Nat.zero_add]
  · have hkind : input.kind = .tensor := by
      refine Value.kind_eq_tensor fun hnil => hzero ?_
      rw [show input.ty.shape = shape by rw [hty]] at hnil
      subst hnil
      rw [← hshape] at hlows hhighsLen
      rw [List.eq_nil_of_length_eq_zero hlows, List.eq_nil_of_length_eq_zero hhighsLen]
      simp
    have hdimsLows : DimsFit lows := (hdims.of_windowFits ⟨hlows, hshape, hle⟩).1
    have hdimsHighs : DimsFit highs := by
      intro high hhigh
      obtain ⟨axis, haxis, rfl⟩ := List.mem_iff_getElem.mp hhigh
      have := hdims.getD_lt axis
      have := hcoord axis (by omega)
      rw [← List.getD_eq_getElem _ 0 haxis]
      omega
    have hsum : size = List.zipWith (· + ·) (shiftBy lows shape) highs := by
      have hshift := length_shiftBy (show lows.length = shape.length by omega)
      refine ext_getD (by rw [List.length_zipWith]; omega) fun axis haxis => ?_
      have := hle axis haxis
      have := hcoord axis haxis
      rw [getD_zipWith _ (by omega) (by omega), getD_shiftBy (by omega)]
      omega
    exact appendTensorPad_lowers hty hkind hx hdimsLows hdimsHighs (by omega) (by omega) hdims hsum

/-- A shape with one element has one position. -/
theorem unravel_ravel_of_prod_eq_one (hprod : shape.prod = 1) (hprod' : size.prod = 1) {i : List ℕ}
    (hi : InBounds i size) : unravel shape (ravel size i) = firstPosition shape := by
  have hlt := ravel_lt hi
  exact eq_firstPosition hprod (inBounds_unravel (by omega))

/-- The vector that a reshape goes through. -/
theorem exists_flat (hty : input.ty = ⟨elem, shape⟩) (hx : input.Holds x)
    (hfit : shape.prod < 2 ^ 63) (hrank : shape.length ≠ 0) :
    ∃ value, flat input = .ok value ∧ value.kind = .tensor ∧ value.ty = ⟨elem, [shape.prod]⟩ ∧
      value.Holds fun i => x (unravel shape (ravel [shape.prod] i)) := by
  have hshape : input.ty.shape = shape := by rw [hty]
  have hkind : input.kind = .tensor := Value.kind_eq_tensor fun hnil => hrank (by
    rw [← hshape, hnil]
    rfl)
  have hread : ∀ i, InBounds i [shape.prod] →
      input.cell (unravel shape (ravel [shape.prod] i)) =
        .written (x (unravel shape (ravel [shape.prod] i))) := by
    intro i hi
    have hlt := ravel_lt hi
    rw [List.prod_singleton] at hlt
    exact hx _ (by rw [hshape]; exact inBounds_unravel hlt)
  unfold flat
  split_ifs with hvector
  · have hlen : shape.length = 1 := by rw [← hshape]; exact hvector
    obtain ⟨dim, rfl⟩ := List.length_eq_one_iff.mp hlen
    refine ⟨input, rfl, hkind, by rw [hty, List.prod_singleton], fun i hi => ?_⟩
    rw [hshape] at hi
    have := hread i (by rwa [List.prod_singleton])
    dsimp only
    rw [List.prod_singleton] at this ⊢
    rwa [unravel_ravel hi] at this ⊢
  · have hcount : elementCount input.ty = shape.prod := by
      rw [elementCount, usizeProduct_eq, hshape, Nat.mod_eq_of_lt (by omega)]
    have hgroups : Reassociates (reassociationForRank input.ty.rank) input.ty.shape
        [shape.prod] := by
      rw [TensorType.rank, hshape]
      refine ⟨by simp [reassociationForRank], ?_, ?_⟩
      · intro group hgroup
        rw [List.mem_singleton.mp hgroup, Ne, List.range_eq_nil]
        exact hrank
      · rw [reassociationForRank, List.map_singleton, map_getD_range]
    have hdims : DimsFit [shape.prod] := by simpa [DimsFit] using hfit
    rw [hcount, appendCollapseShape_eq hkind hgroups hdims, show input.ty.elem = elem by rw [hty]]
    refine ⟨_, rfl, rfl, rfl, fun i hi => ?_⟩
    rw [Value.tensor_cell, hshape]
    exact hread i hi

/-- **`reshape`.**  It goes through a vector, whose type MLIR has to parse. -/
theorem reshape_lowers (hty : input.ty = ⟨elem, shape⟩) (hx : input.Holds x)
    (hprod : shape.prod = size.prod) (hfit : input.ty = ⟨elem, size⟩ ∨ shape.prod < 2 ^ 63)
    (hdims : DimsFit size) :
    Lowers (reshape input ⟨elem, size⟩) ⟨elem, size⟩ fun i =>
      x (unravel shape (ravel size i)) := by
  have hshape : input.ty.shape = shape := by rw [hty]
  have helem : input.ty.elem = elem := by rw [hty]
  unfold reshape
  by_cases hsame : input.ty = ⟨elem, size⟩
  · rw [if_pos hsame]
    obtain rfl : shape = size := by rw [← hshape, hsame]
    refine hty ▸ (lowers_ok hx).congr fun i hi => ?_
    rw [hty] at hi
    rw [unravel_ravel hi]
  rw [if_neg hsame]
  by_cases hscalar : (⟨elem, size⟩ : TensorType).rank = 0 ∨ input.ty.rank = 0
  · rw [if_pos hscalar]
    have hone : shape.prod = 1 := by
      rcases hscalar with hnil | hnil
      · rw [hprod, List.eq_nil_of_length_eq_zero (show size.length = 0 from hnil)]
        rfl
      · rw [← hshape, List.eq_nil_of_length_eq_zero (show input.ty.shape.length = 0 from hnil)]
        rfl
    have hcount : elementCount input.ty = 1 := by
      rw [elementCount, usizeProduct_eq, hshape, hone]
      norm_num
    refine ⟨_, splat_eq hx (.inr hcount) helem hdims, rfl, fun i hi => ?_⟩
    have hi : InBounds i size := hi
    dsimp only [Value.tensor_cell]
    rw [unravel_ravel_of_prod_eq_one hone (hprod ▸ hone) hi, hshape]
  · rw [if_neg hscalar]
    rw [not_or] at hscalar
    obtain ⟨vector, hflat, hflatKind, hflatTy, hflatHolds⟩ :=
      exists_flat hty hx (hfit.resolve_left hsame) fun hzero => hscalar.2 (by rw [TensorType.rank, hshape, hzero])
    simp only [hflat, bind, Except.bind]
    have hthrough : ∀ {i : List ℕ}, InBounds i size →
        ravel [shape.prod] (unravel [shape.prod] (ravel size i)) = ravel size i := fun hi =>
      ravel_unravel (by rw [List.prod_singleton, hprod]; exact ravel_lt hi)
    split_ifs with hvector
    · obtain ⟨dim, rfl⟩ := List.length_eq_one_iff.mp (show size.length = 1 from hvector)
      rw [List.prod_singleton] at hprod
      rw [hprod] at hflatTy hflatHolds
      exact ⟨vector, rfl, hflatTy, hflatHolds⟩
    · have hgroups : Reassociates (reassociationForRank size.length) size [shape.prod] := by
        refine ⟨by simp [reassociationForRank], ?_, ?_⟩
        · intro group hgroup
          rw [List.mem_singleton.mp hgroup, Ne, List.range_eq_nil]
          exact hscalar.1
        · rw [reassociationForRank, List.map_singleton, map_getD_range, hprod]
      refine ⟨.tensor ⟨elem, size⟩ (fun i =>
        vector.cell (unravel vector.ty.shape (ravel size i))) hdims, ?_, rfl, fun i hi => ?_⟩
      · simp only [appendExpandShape, except_bind_eq_ok_iff, denseI64Attr_eq_ok_iff,
          verify_eq_ok_iff, exists_const, hflatTy]
        exact ⟨hdims, hflatKind, ⟨trivial, hgroups⟩, resultTensor_of _⟩
      · have hi : InBounds i size := hi
        have hread := hflatHolds (unravel [shape.prod] (ravel size i)) (by
          rw [hflatTy]
          exact inBounds_unravel (by rw [List.prod_singleton, hprod]; exact ravel_lt hi))
        dsimp only at hread
        rw [hthrough hi] at hread
        rw [Value.tensor_cell, hflatTy]
        exact hread

end Pad

/-! ## All movements -/

/-- The operands that the lowerings of `slice` and `stack` can handle: both emit
operations on tensors, which a rank-zero value need not be. -/
def MovesTensors (op : CallOp) (args : List (Value R)) : Prop :=
  match op with
  | .slice _ _ => ∀ arg ∈ args, arg.kind = .tensor
  | .stack _ => ∀ arg ∈ args, arg.ty.rank ≠ 0
  | _ => True

/-- A reshape that changes the shape goes through a vector of all elements, whose
type MLIR has to parse. -/
def FlatFits (op : CallOp) (args : List TensorType) : Prop :=
  match op with
  | .reshape target => ∀ ty ∈ args, ty = target ∨ ty.shape.prod < 2 ^ 63
  | _ => True

/-- The lowered values have the types and hold the arrays, one by one. -/
def LowersAll (lowered : Except Error (List (Value R))) (tys : List TensorType)
    (arrays : ℕ → List ℕ → R) : Prop :=
  ∃ values, lowered = .ok values ∧ values.map (·.ty) = tys ∧
    ∀ (k : ℕ) (value : Value R), values[k]? = some value → value.Holds (arrays k)

/-- One result. -/
theorem Lowers.all {lowered : Except Error (Value R)} {ty : TensorType} {y : List ℕ → R}
    {arrays : ℕ → List ℕ → R} (h : Lowers lowered ty y)
    (heq : ∀ i, InBounds i ty.shape → y i = arrays 0 i) :
    LowersAll (do return [← lowered]) [ty] arrays := by
  obtain ⟨value, hvalue, hty, hholds⟩ := h.congr heq
  refine ⟨[value], by rw [hvalue]; rfl, by rw [List.map_singleton, hty], fun k other hk => ?_⟩
  cases k with
  | zero =>
      obtain rfl := Option.some.inj hk
      exact hholds
  | succ k => simp at hk

theorem exists_unary {args : List (Value R)} {arrays : List (List ℕ → R)} {ty : TensorType}
    (hargs : List.Forall₂ Value.Holds args arrays) (htys : args.map (·.ty) = [ty]) :
    ∃ input x, args = [input] ∧ arrays = [x] ∧ input.ty = ty ∧ input.Holds x := by
  obtain ⟨input, rfl, hty⟩ := List.map_eq_singleton_iff.mp htys
  obtain ⟨x, rest, hx, hrest, rfl⟩ := List.forall₂_cons_left_iff.mp hargs
  cases hrest
  exact ⟨input, x, rfl, rfl, hty, hx⟩

theorem exists_binary {args : List (Value R)} {arrays : List (List ℕ → R)} {ty ty' : TensorType}
    (hargs : List.Forall₂ Value.Holds args arrays) (htys : args.map (·.ty) = [ty, ty']) :
    ∃ lhs rhs x x', args = [lhs, rhs] ∧ arrays = [x, x'] ∧ lhs.ty = ty ∧ rhs.ty = ty' ∧
      lhs.Holds x ∧ rhs.Holds x' := by
  obtain ⟨lhs, rest, rfl, hlhs, hrest⟩ := List.map_eq_cons_iff.mp htys
  obtain ⟨x, arrays, hx, hargs', rfl⟩ := List.forall₂_cons_left_iff.mp hargs
  obtain ⟨rhs, x', rfl, rfl, hrhs, hx'⟩ := exists_unary hargs' hrest
  exact ⟨lhs, rhs, x, x', rfl, rfl, hlhs, hrhs, hx, hx'⟩

/-- **The lowerings of data movement compute their index laws**: for result
dimensions below `2 ^ 63`, every lowering succeeds, its results have the inferred
types, and each of their elements is written exactly once and holds what the law
reads. -/
theorem lowerMovement_movedArray [Zero R] (op : CallOp) (args : List (Value R))
    (arrays : List (List ℕ → R)) (results : List TensorType) (hmoves : op.movesData = true)
    (hargs : List.Forall₂ Value.Holds args arrays)
    (hok : inferCallResults op (args.map (·.ty)) = .ok results)
    (hsizes : SizesFit op (args.map (·.ty)))
    (hresults : ∀ ty ∈ results, DimsFit ty.shape) (hflat : FlatFits op (args.map (·.ty)))
    (htensors : MovesTensors op args) :
    LowersAll (lowerMovement op args) results (movedArray op (args.map (·.ty)) arrays) := by
  have htyped := movementTyped_of_inferCallResults hmoves hok hsizes
  have hoperands : ∀ ty ∈ args.map (·.ty), DimsFit ty.shape := by
    intro ty hty
    obtain ⟨arg, -, rfl⟩ := List.mem_map.mp hty
    exact arg.dims_fit
  generalize htys : args.map (·.ty) = tys at *
  cases htyped with
  | slice hfits =>
      obtain ⟨input, x, rfl, rfl, hty, hx⟩ := exists_unary hargs htys
      have hkind : input.kind = .tensor := htensors input List.mem_cons_self
      exact (slice_lowers hty hkind hx (hoperands _ List.mem_cons_self) hfits).all fun i _ => rfl
  | @split elem shape sections axis haxis hsum =>
      obtain ⟨input, x, rfl, rfl, hty, hx⟩ := exists_unary hargs htys
      obtain ⟨values, hvalues, hvalueTys, hholds⟩ :=
        @exists_splitFrom R input x elem shape axis hty hx (hoperands _ List.mem_cons_self) haxis
          sections 0 (by omega)
      refine ⟨values, hvalues, hvalueTys, fun k value hk => ?_⟩
      have hpart := hholds k value hk
      simp only [Nat.zero_add] at hpart
      exact hpart
  | take haxis hindex =>
      obtain ⟨input, x, rfl, rfl, hty, hx⟩ := exists_unary hargs htys
      exact (take_lowers hty hx (hoperands _ List.mem_cons_self) haxis hindex).all fun i _ => rfl
  | @concat elem shape axis size haxis =>
      obtain ⟨lhs, rhs, x, x', rfl, rfl, hlhs, hrhs, hx, hx'⟩ := exists_binary hargs htys
      have hlhsPiece : IsPiece elem shape axis lhs (shape.getD axis 0, x) :=
        ⟨by rw [set_getD_self]; exact hlhs, hx⟩
      refine (concat_lowers haxis hlhsPiece ⟨hrhs, hx'⟩ (hresults _ List.mem_cons_self)).all
        fun i _ => ?_
      have hlaw : movementLaw (.concat axis) [⟨elem, shape⟩, ⟨elem, shape.set axis size⟩] 0 i =
          if i.getD axis 0 < shape.getD axis 0 then some (0, i)
          else some (1, i.set axis (i.getD axis 0 - shape.getD axis 0)) := rfl
      split_ifs at hlaw ⊢ <;> (rw [movedArray_of_law hlaw]; rfl)
  | @stack elem shape axis haxis =>
      obtain ⟨lhs, rhs, x, x', rfl, rfl, hlhs, hrhs, hx, hx'⟩ := exists_binary hargs htys
      have hrank : 0 < shape.length := by
        have : lhs.ty.rank ≠ 0 := htensors lhs List.mem_cons_self
        rw [hlhs] at this
        exact Nat.pos_of_ne_zero this
      refine (stack_lowers hlhs hrhs hx hx' (hoperands _ List.mem_cons_self) hrank haxis).all
        fun i hi => ?_
      have hi : InBounds i (shape.insertIdx axis 2) := hi
      have hcoord := hi.getD_lt (show axis < (shape.insertIdx axis 2).length by
        rw [List.length_insertIdx_of_le_length haxis]
        omega)
      rw [getD_insertIdx_self haxis] at hcoord
      rw [movedArray_of_law rfl]
      obtain hzero | hone : i.getD axis 0 = 0 ∨ i.getD axis 0 = 1 := by omega
      · rw [hzero]
        rfl
      · rw [hone]
        rfl
  | tile hlen =>
      obtain ⟨input, x, rfl, rfl, hty, hx⟩ := exists_unary hargs htys
      exact (tile_lowers hty hx (hoperands _ List.mem_cons_self) (hresults _ List.mem_cons_self)
        hlen).all fun i _ => rfl
  | repeat_ haxis =>
      obtain ⟨input, x, rfl, rfl, hty, hx⟩ := exists_unary hargs htys
      exact (repeat_lowers hty hx (hoperands _ List.mem_cons_self) (hresults _ List.mem_cons_self)
        haxis).all fun i _ => rfl
  | flip hnodup hlt =>
      obtain ⟨input, x, rfl, rfl, hty, hx⟩ := exists_unary hargs htys
      exact (flip_lowers hty hx (hoperands _ List.mem_cons_self) hnodup hlt).all fun i _ => rfl
  | roll haxis =>
      obtain ⟨input, x, rfl, rfl, hty, hx⟩ := exists_unary hargs htys
      exact (roll_lowers hty hx (hoperands _ List.mem_cons_self) haxis).all fun i _ => rfl
  | @pad elem shape lows size hfits =>
      obtain ⟨input, x, rfl, rfl, hty, hx⟩ := exists_unary hargs htys
      refine (pad_lowers hty hx hfits (hresults _ List.mem_cons_self)).all fun i _ => ?_
      have hlaw : movementLaw (.pad ⟨elem, size⟩ lows) [⟨elem, shape⟩] 0 i =
          (window lows shape i).map fun j => (0, j) := rfl
      cases hwindow : window lows shape i with
      | none =>
          rw [pull_none hwindow, movedArray_of_padding]
          rw [hlaw, hwindow]
          rfl
      | some j =>
          rw [hwindow] at hlaw
          rw [pull_some hwindow, movedArray_of_law hlaw]
          rfl
  | transpose hperm =>
      obtain ⟨input, x, rfl, rfl, hty, hx⟩ := exists_unary hargs htys
      exact (transpose_lowers hty hx hperm).all fun i _ => rfl
  | permute hperm =>
      obtain ⟨input, x, rfl, rfl, hty, hx⟩ := exists_unary hargs htys
      exact (permute_lowers hty hx hperm).all fun i _ => rfl
  | permuteDims hperm =>
      obtain ⟨input, x, rfl, rfl, hty, hx⟩ := exists_unary hargs htys
      exact (permuteDims_lowers hty hx hperm).all fun i _ => rfl
  | swapAxes haxis0 haxis1 =>
      obtain ⟨input, x, rfl, rfl, hty, hx⟩ := exists_unary hargs htys
      exact (swapaxes_lowers hty hx haxis0 haxis1).all fun i _ => rfl
  | moveAxis hsource hdestination =>
      obtain ⟨input, x, rfl, rfl, hty, hx⟩ := exists_unary hargs htys
      exact (moveaxis_lowers hty hx hsource hdestination).all fun i _ => rfl
  | reshape hprod =>
      obtain ⟨input, x, rfl, rfl, hty, hx⟩ := exists_unary hargs htys
      refine (reshape_lowers hty hx hprod ?_ (hresults _ List.mem_cons_self)).all fun i _ => rfl
      rw [hty]
      exact hflat _ List.mem_cons_self

/-- Two vectors, joined. -/
theorem lowerMovement_movedArray_concat :
    LowersAll (lowerMovement (.concat 0) [Value.tensor ⟨.f32, [1]⟩ fun _ => .written (7 : ℤ),
        Value.tensor ⟨.f32, [2]⟩ fun _ => .written 5]) [⟨.f32, [3]⟩]
      (movedArray (.concat 0) [⟨.f32, [1]⟩, ⟨.f32, [2]⟩] [fun _ => 7, fun _ => 5]) :=
  lowerMovement_movedArray (.concat 0) _ [fun _ => 7, fun _ => 5] [⟨.f32, [3]⟩] rfl
    (.cons (fun _ _ => rfl) (.cons (fun _ _ => rfl) .nil)) (by decide)
    (show 1 + 2 < 2 ^ 64 by norm_num) (by decide) trivial trivial

/-- The type rule of `pad` accepts a result that MLIR cannot parse. -/
theorem not_lowersAll_pad_wide :
    inferCallResults (.pad ⟨.f32, [2 ^ 63 + 1]⟩ [2 ^ 63]) [⟨.f32, [1]⟩] =
        .ok [⟨.f32, [2 ^ 63 + 1]⟩] ∧
      ∀ (input : Value ℤ) (arrays : ℕ → List ℕ → ℤ), input.ty = ⟨.f32, [1]⟩ →
        ¬ LowersAll (lowerMovement (.pad ⟨.f32, [2 ^ 63 + 1]⟩ [2 ^ 63]) [input])
          [⟨.f32, [2 ^ 63 + 1]⟩] arrays := by
  refine ⟨by decide, ?_⟩
  rintro input arrays hty ⟨values, -, htys, -⟩
  -- no value has the type
  obtain ⟨value, rfl, hvalue⟩ := List.map_eq_singleton_iff.mp htys
  have hfit := value.dims_fit
  rw [hvalue] at hfit
  exact absurd (hfit (2 ^ 63 + 1) List.mem_cons_self) (by norm_num)

end Knok.Lowering
