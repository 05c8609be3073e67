import Mathlib
import Knok.Literals
import Knok.NumberRules
import Knok.Autograd.Adjoint.Movement

/-!
# Gradients of indexed reads

There is no scatter: the rules of `gather` and `take_along_axis` build, for every
coordinate along the indexed axis, the mask of the entries that read it, sum the
masked gradient over the axes of the indices and join the pieces.
-/

namespace Knok.Autograd

open Arrays Control

universe u

/-! ## Joining unit pieces -/

section Units

variable {R : Type u} [CommRing R] {A : Arithmetic R} {calls : Calls (Tensor R)}
  {values : Env (Tensor R)} {elem : ElementType} {s : List ℕ} {axis : ℕ}

theorem concatAll_append (axis : ℕ) (pieces : List Expr) (piece : Expr) :
    concatAll axis (pieces ++ [piece]) = some (match concatAll axis pieces with
      | some acc => call (.concat axis) [acc, piece]
      | none => piece) := by
  cases pieces with
  | nil => rfl
  | cons first pieces => simp [concatAll]

/-- **Pieces of size one, joined**: each coordinate along the axis is its piece. -/
theorem exists_concatAll {piece : ℕ → Expr} {entry : ℕ → List ℕ → R} (haxis : axis < s.length) :
    ∀ n : ℕ, n + 1 < 2 ^ 64 →
      (∀ k < n + 1, Evaluates A calls values (piece k) ⟨elem, s.set axis 1⟩ (entry k)) →
      ∃ e, concatAll axis ((List.range (n + 1)).map piece) = some e ∧
        Evaluates A calls values e ⟨elem, s.set axis (n + 1)⟩
          fun i => entry (i.getD axis 0) (i.set axis 0) := by
  intro n
  induction n with
  | zero =>
      intro _ hpieces
      refine ⟨piece 0, rfl, (hpieces 0 Nat.one_pos).congr fun i hi => ?_⟩
      have hi : InBounds i (s.set axis 1) := hi
      have hzero := hi.getD_lt (show axis < (s.set axis 1).length by rwa [List.length_set])
      rw [getD_set_of_lt haxis, if_pos rfl, Nat.lt_one_iff] at hzero
      have hset := set_getD_self i axis
      rw [hzero] at hset ⊢
      rw [hset]
  | succ n ih =>
      intro hlt hpieces
      obtain ⟨e, he, hevaluates⟩ := ih (by omega) fun k hk => hpieces k (by omega)
      have hshape : (s.set axis (n + 1)).getD axis 0 = n + 1 := by
        rw [getD_set_of_lt haxis, if_pos rfl]
      have hlast : Evaluates A calls values (piece (n + 1))
          ⟨elem, (s.set axis (n + 1)).set axis 1⟩ (entry (n + 1)) := by
        rw [List.set_set]
        exact hpieces (n + 1) (by omega)
      have hjoined := hevaluates.concat (by rwa [List.length_set]) (by rwa [hshape]) hlast
      rw [hshape, List.set_set] at hjoined
      refine ⟨_, ?_, hjoined.congr fun i hi => ?_⟩
      · rw [List.range_succ, List.map_append, List.map_singleton, concatAll_append, he]
        rfl
      · have hi : InBounds i (s.set axis (n + 1 + 1)) := hi
        have hcoord := hi.getD_lt (show axis < (s.set axis (n + 1 + 1)).length by
          rwa [List.length_set])
        rw [getD_set_of_lt haxis, if_pos rfl] at hcoord
        split_ifs with hbelow
        · rfl
        · have heq : i.getD axis 0 = n + 1 := by omega
          rw [heq, Nat.sub_self]

end Units

/-! ## Sums over a run of axes -/

section Runs

variable {R : Type u} [CommRing R] {A : Arithmetic R} {calls : Calls (Tensor R)}
  {values : Env (Tensor R)} {elem : ElementType} {pre : List ℕ}

/-- The axes of the middle run, the last one first. -/
def runAxes (start count : ℕ) : List ℕ := ((List.range count).map (start + ·)).reverse

theorem runAxes_succ (start count : ℕ) :
    runAxes start (count + 1) = (start + count) :: runAxes start count := by
  unfold runAxes
  rw [List.range_succ, List.map_append, List.reverse_append]
  rfl

/-- **Summing over a run of axes**, one axis after the other from the last. -/
theorem evaluates_sumRun (helem : elem.isNumeric = true) (mid : List ℕ) :
    ∀ {suf : List ℕ} {e : Expr} {x : List ℕ → R},
      Evaluates A calls values e ⟨elem, pre ++ (mid ++ suf)⟩ x →
      Evaluates A calls values
        ((runAxes pre.length mid.length).foldl
          (fun piece axis => call (.sum (.one axis)) [piece]) e) ⟨elem, pre ++ suf⟩
        fun i => ∑ t ∈ box mid, x (i.take pre.length ++ (t ++ i.drop pre.length)) := by
  induction mid using List.reverseRecOn with
  | nil =>
      intro suf e x h
      refine h.congr fun i _ => ?_
      rw [sum_box_nil, List.nil_append, List.take_append_drop]
  | append_singleton mid dim ih =>
      intro suf e x h
      have hshape : pre ++ (mid ++ [dim] ++ suf) = (pre ++ mid) ++ dim :: suf := by simp
      have hlen : pre.length + mid.length = (pre ++ mid).length := List.length_append.symm
      have hsummed := h.sum (pre.length + mid.length) helem (by simp)
      have hremoved : (pre ++ (mid ++ [dim] ++ suf)).eraseIdx (pre.length + mid.length) =
          pre ++ (mid ++ suf) := by
        rw [hshape, hlen, List.eraseIdx_append_of_length_le le_rfl, Nat.sub_self]
        simp
      have hdim : (pre ++ (mid ++ [dim] ++ suf)).getD (pre.length + mid.length) 0 = dim := by
        rw [hshape, hlen, List.getD_append_right _ _ _ _ le_rfl, Nat.sub_self]
        rfl
      have hrest := ih (hsummed.congr_type (by rw [hremoved]))
      rw [List.length_append, List.length_singleton, runAxes_succ, List.foldl_cons]
      refine hrest.congr fun i hi => ?_
      have hi : InBounds i (pre ++ suf) := hi
      obtain ⟨p, s, rfl, hp, -⟩ := exists_append_of_inBounds hi
      rw [hdim, ← hp.length_eq, List.take_left, List.drop_left, sum_box_append]
      refine Finset.sum_congr rfl fun t ht => ?_
      rw [sum_box_cons]
      refine Finset.sum_congr rfl fun k _ => ?_
      rw [sum_box_nil, ← (mem_box.mp ht).length_eq, ← List.append_assoc, ← List.length_append,
        insertIdx_length_append]
      simp

end Runs

/-! ## Masks -/

section Masks

variable {R : Type u} [CommRing R] {N : Numbers R} {calls : Calls (Tensor (Entry R))}
  {values : Env (Tensor (Entry R))} {e indices : Expr} {elem : ElementType}
  {shape pre mid suf : List ℕ} {v : List ℕ → Entry R} {c : List ℕ → Bool} {width : ℕ}

/-- The element types of indices. -/
theorem indexElem_facts (hwidth : elem.intWidth = some width) :
    elem.isFloat = false ∧ elem.isNumeric = true ∧ elem.zeroLiteral = "0" := by
  rcases eq_i32_or_i64 hwidth with rfl | rfl <;> exact ⟨rfl, rfl, rfl⟩

/-- The two literals that a coordinate is compared with. -/
theorem fitsWidth_coordinate {k dim : ℕ} (hk : k < dim) (hdim : dim ≤ 2 ^ (width - 1)) :
    FitsWidth width k ∧ FitsWidth width ((k : ℤ) - dim) := by
  have hbound : (dim : ℤ) ≤ 2 ^ (width - 1) := by exact_mod_cast hdim
  exact ⟨⟨by omega, by omega⟩, by omega, by omega⟩

/-- A comparison of integers with a literal. -/
theorem decides_equal_integer (hwidth : elem.intWidth = some width)
    (h : Evaluates N.arithmetic calls values e ⟨elem, shape⟩ v) {n : ℤ} (hn : FitsWidth width n) :
    Decides N calls values (call .equal [e, scalar (toString n) elem]) shape
      fun i => decide (elem.signed (v i).2 = n) := by
  have helem := (indexElem_facts hwidth).1
  have hshape := broadcastShapeSlices_comm
    (broadcastShapeSlices_eq_right_iff.mpr (broadcastsTo_nil shape))
  have hcompared := decides_comparison (@inferCallResults_equal elem _ _ _ hshape) rfl
    (fun _ _ _ => rfl) hshape h (evaluates_integer calls values (toString n) helem)
  refine hcompared.congr fun i hi => ?_
  rw [broadcastIndex_self hi, integerLiteral_int, Numbers.equalAt,
    if_neg (by rw [helem]; exact Bool.false_ne_true), ElementType.signed_of_fits hwidth hn]

/-- The condition that an entry of the indices selects a coordinate. -/
theorem decides_selects (hwidth : elem.intWidth = some width)
    (h : Evaluates N.arithmetic calls values indices ⟨elem, shape⟩ v) {k dim : ℕ} (hk : k < dim)
    (hdim : dim ≤ 2 ^ (width - 1)) :
    Decides N calls values
      (call .logicalOr [call .equal [indices, scalar (toString k) elem],
        call .equal [indices, scalar (toString ((k : ℤ) - dim)) elem]]) shape
      fun i => decide (elem.signed (v i).2 = k) ||
        decide (elem.signed (v i).2 = (k : ℤ) - dim) := by
  obtain ⟨hpositive, hnegative⟩ := fitsWidth_coordinate hk hdim
  have hself := broadcastShapeSlices_eq_right_iff.mpr (broadcastsTo_refl shape)
  refine (decides_connective rfl (fun _ _ _ => rfl) hself
    (decides_equal_integer hwidth h hpositive)
    (decides_equal_integer hwidth h hnegative)).congr fun i hi => ?_
  rw [broadcastIndex_self hi]

/-- The mask of the indices, with unit axes for the others. -/
theorem foldl_set_unitAxes (pre suf : ℕ) (mid : List ℕ) (hrank : pre + mid.length + suf < 2 ^ 64) :
    (List.range mid.length).foldl
        (fun shape offset => shape.set (usizeAdd pre offset) (mid.getD offset 0))
        (List.replicate (pre + (mid.length + suf)) 1) =
      List.replicate pre 1 ++ (mid ++ List.replicate suf 1) := by
  have hprefix : ∀ n ≤ mid.length, (List.range n).foldl
      (fun shape offset => shape.set (usizeAdd pre offset) (mid.getD offset 0))
      (List.replicate (pre + (mid.length + suf)) 1) =
        List.replicate pre 1 ++ (mid.take n ++ List.replicate (mid.length - n + suf) 1) := by
    intro n
    induction n with
    | zero => intro _; simp
    | succ n ih =>
        intro hn
        rw [List.range_succ, List.foldl_append, ih (by omega), List.foldl_cons, List.foldl_nil,
          usizeAdd_of_lt (by omega), List.set_append_right _ _ (by simp), List.length_replicate,
          Nat.add_sub_cancel_left, List.set_append_right _ _ (by simp), List.length_take,
          min_eq_left (by omega), Nat.sub_self,
          show mid.length - n + suf = (mid.length - (n + 1) + suf) + 1 by omega,
          List.replicate_succ, List.set_cons_zero, List.getD_eq_getElem _ _ (by omega),
          List.take_succ_eq_append_getElem (by omega), List.append_assoc, List.singleton_append]
  have hall := hprefix mid.length le_rfl
  rwa [List.take_length, Nat.sub_self, Nat.zero_add] at hall

/-- **The mask of the indices, spread over the result.** -/
theorem decides_reshapeIndexCondition {outputTy : TensorType}
    (hrank : pre.length + mid.length + suf.length < 2 ^ 64)
    (houtput : outputTy.shape = pre ++ (mid ++ suf)) (h : Decides N calls values e mid c) :
    Decides N calls values (reshapeIndexCondition e ⟨elem, mid⟩ outputTy pre.length)
      (pre ++ (mid ++ suf)) fun i => c ((i.drop pre.length).take mid.length) := by
  have hmask := foldl_set_unitAxes pre.length suf.length mid hrank
  have hprod : mid.prod =
      (List.replicate pre.length 1 ++ (mid ++ List.replicate suf.length 1)).prod := by simp
  have houtRank : outputTy.rank = pre.length + (mid.length + suf.length) := by
    simp [TensorType.rank, houtput]
  have hreshaped : Decides N calls values (reshapeIfNeeded e ⟨.bool, mid⟩
      ⟨.bool, List.replicate pre.length 1 ++ (mid ++ List.replicate suf.length 1)⟩)
      (List.replicate pre.length 1 ++ (mid ++ List.replicate suf.length 1))
      fun i => c (unravel mid (ravel
        (List.replicate pre.length 1 ++ (mid ++ List.replicate suf.length 1)) i)) :=
    evaluates_reshapeIfNeeded hprod h
  have hbroadcast : Decides N calls values _ (pre ++ (mid ++ suf)) _ :=
    (evaluates_broadcastIfNeeded (broadcastsTo_unitAxes pre mid suf) hreshaped).congr
      (y := fun i => truth (c ((i.drop pre.length).take mid.length))) fun i hi => by
        obtain ⟨p, t, s, rfl, hp, ht, hs⟩ := exists_runs hi
        rw [broadcastIndex_unitAxes hp ht hs]
        dsimp only
        rw [unravel_ravel_unitAxes _ _ ht, ← hp.length_eq, List.drop_left, ← ht.length_eq,
          List.take_left]
  unfold reshapeIndexCondition
  dsimp only
  rw [houtRank, houtput]
  have hfold : (List.range (⟨elem, mid⟩ : TensorType).rank).foldl
      (fun shape offset => shape.set (usizeAdd pre.length offset)
        ((⟨elem, mid⟩ : TensorType).dim offset))
      (List.replicate (pre.length + (mid.length + suf.length)) 1) = _ := hmask
  rw [hfold]
  exact hbroadcast

end Masks

/-! ## The pieces, joined -/

section Pieces

variable {R : Type u} [CommRing R] {N : Numbers R} {calls : Calls (Tensor (Entry R))}
  {values : Env (Tensor (Entry R))} {input indices grad : Expr} {elem : ElementType}
  {indicesTy : TensorType} {pre mid suf : List ℕ} {dim : ℕ} {v g x : List ℕ → Entry R}
  {index : List ℕ → ℤ} {width : ℕ}

/-- The mask of a coordinate, over the result. -/
theorem decides_indexedCondition (hwidth : indicesTy.elem.intWidth = some width)
    (hv : Evaluates N.arithmetic calls values indices indicesTy v)
    (hlayout : (indicesTy.shape = mid ∧ pre.length + mid.length + suf.length < 2 ^ 64 ∧
        ∀ i, index i = indicesTy.elem.signed (v ((i.drop pre.length).take mid.length)).2) ∨
      indicesTy.shape = pre ++ (mid ++ suf) ∧ ∀ i, index i = indicesTy.elem.signed (v i).2)
    {k : ℕ} (hk : k < dim) (hdim : dim ≤ 2 ^ (width - 1)) :
    Decides N calls values
      (if indicesTy.shape = (⟨elem, pre ++ (mid ++ suf)⟩ : TensorType).shape then
        call .logicalOr [call .equal [indices, scalar (toString k) indicesTy.elem],
          call .equal [indices, scalar (toString ((k : ℤ) - dim)) indicesTy.elem]]
      else reshapeIndexCondition
        (call .logicalOr [call .equal [indices, scalar (toString k) indicesTy.elem],
          call .equal [indices, scalar (toString ((k : ℤ) - dim)) indicesTy.elem]])
        indicesTy ⟨elem, pre ++ (mid ++ suf)⟩ pre.length)
      (pre ++ (mid ++ suf)) fun i => decide (index i = k) || decide (index i = (k : ℤ) - dim) := by
  obtain ⟨indexElem, shape⟩ := indicesTy
  have hselects := decides_selects hwidth hv hk hdim
  rcases hlayout with ⟨hmid, hrank, hindex⟩ | ⟨hall, hindex⟩
  · obtain rfl : shape = mid := hmid
    dsimp only
    split_ifs with heq
    · -- only the axes of the indices: the mask is used as it is
      have hlen : shape.length = pre.length + (shape.length + suf.length) := by
        have hlen := congrArg List.length heq
        rwa [List.length_append, List.length_append] at hlen
      obtain rfl := List.length_eq_zero_iff.mp (show pre.length = 0 by omega)
      obtain rfl := List.length_eq_zero_iff.mp (show suf.length = 0 by omega)
      rw [List.nil_append, List.append_nil]
      refine hselects.congr fun i hi => ?_
      rw [hindex i, List.length_nil, List.drop_zero, ← hi.length_eq, List.take_length]
    · refine (decides_reshapeIndexCondition hrank rfl hselects).congr fun i _ => ?_
      rw [hindex i]
  · obtain rfl : shape = pre ++ (mid ++ suf) := hall
    dsimp only
    rw [if_pos rfl]
    exact hselects.congr fun i _ => by rw [hindex i]

/-- **The expression of the rule adds up, at every position, the entries that read
it.** -/
theorem exists_indexedAxisGrad (hnumeric : elem.isNumeric = true)
    (hwidth : indicesTy.elem.intWidth = some width)
    (hx : Evaluates N.arithmetic calls values input ⟨elem, pre ++ dim :: suf⟩ x)
    (hv : Evaluates N.arithmetic calls values indices indicesTy v)
    (hg : Evaluates N.arithmetic calls values grad ⟨elem, pre ++ (mid ++ suf)⟩ g)
    (hlayout : (indicesTy.shape = mid ∧ pre.length + mid.length + suf.length < 2 ^ 64 ∧
        ∀ i, index i = indicesTy.elem.signed (v ((i.drop pre.length).take mid.length)).2) ∨
      indicesTy.shape = pre ++ (mid ++ suf) ∧ ∀ i, index i = indicesTy.elem.signed (v i).2)
    (hrange : ∀ i, InBounds i (pre ++ (mid ++ suf)) → InRange dim (index i))
    (hdim : dim ≤ 2 ^ (width - 1)) (hcapacity : dim * exprSize < 2 ^ 63) :
    ∃ e, indexedAxisGrad input indices indicesTy ⟨elem, pre ++ (mid ++ suf)⟩
        ⟨elem, pre ++ dim :: suf⟩ pre.length ((List.range mid.length).map (pre.length + ·)) grad =
          .ok e ∧
      Evaluates N.arithmetic calls values e ⟨elem, pre ++ dim :: suf⟩
        (push (pre ++ (mid ++ suf))
          (fun i => some (indexedPosition pre.length mid.length dim index i)) g) := by
  have hdimAt : (⟨elem, pre ++ dim :: suf⟩ : TensorType).dim pre.length = dim := by
    show (pre ++ dim :: suf).getD pre.length 0 = dim
    rw [List.getD_append_right _ _ _ _ le_rfl, Nat.sub_self]
    rfl
  have haxis : pre.length < (pre ++ dim :: suf).length := by simp
  have hset : ∀ size, (pre ++ dim :: suf).set pre.length size = pre ++ size :: suf := by
    intro size
    rw [List.set_append_right _ _ le_rfl, Nat.sub_self]
    rfl
  unfold indexedAxisGrad
  rw [hdimAt]
  split_ifs with hzero hlarge
  · -- no coordinate along the axis
    refine ⟨_, rfl, hx.zerosLike.congr fun i hi => ?_⟩
    have hcoord := hi.getD_lt haxis
    rw [show (pre ++ dim :: suf).getD pre.length 0 = dim from hdimAt, hzero] at hcoord
    exact absurd hcoord (Nat.not_lt_zero _)
  · exact absurd hcapacity (not_lt.mpr hlarge)
  · obtain ⟨n, rfl⟩ : ∃ n, dim = n + 1 := Nat.exists_eq_succ_of_ne_zero hzero
    have hpieces : ∀ k < n + 1, Evaluates N.arithmetic calls values
        (indexedPiece indices indicesTy ⟨elem, pre ++ (mid ++ suf)⟩ ⟨elem, pre ++ (n + 1) :: suf⟩
          pre.length ((List.range mid.length).map (pre.length + ·)) grad k)
        ⟨elem, (pre ++ (n + 1) :: suf).set pre.length 1⟩ fun i =>
          push (pre ++ (mid ++ suf))
            (fun i => some (indexedPosition pre.length mid.length (n + 1) index i)) g
            (i.set pre.length k) := by
      intro k hk
      have hcondition := @decides_indexedCondition R _ N calls values indices elem indicesTy pre mid
        suf (n + 1) v index width hwidth hv hlayout k hk hdim
      have hmask := hcondition.mask (broadcastsTo_refl _) hg
      have hsummed := evaluates_sumRun hnumeric mid hmask
      have hpiece : Evaluates N.arithmetic calls values _ ⟨elem, pre ++ 1 :: suf⟩ _ :=
        hsummed.reshape (by simp)
      unfold indexedPiece
      rw [hdimAt, hset]
      refine hpiece.congr fun i hi => ?_
      have hi : InBounds i (pre ++ 1 :: suf) := hi
      obtain ⟨p, q, rfl, hp, hq⟩ := exists_append_of_inBounds hi
      cases hq with
      | @cons coord _ s _ hone hs =>
          obtain rfl := Nat.lt_one_iff.mp hone
          have hposition : (p ++ 0 :: s).set pre.length k = p ++ k :: s := by
            rw [← hp.length_eq, List.set_append_right _ _ le_rfl, Nat.sub_self]
            rfl
          rw [hposition, push_indexedPosition g hp hs, unravel_ravel_append_one hp hs,
            ← hp.length_eq, List.take_left, List.drop_left]
          refine Finset.sum_congr rfl fun t ht => ?_
          have hbound := inBounds_runs hp (mem_box.mp ht) hs
          rw [broadcastIndex_self hbound]
          refine if_congr ?_ rfl rfl
          rw [Bool.or_eq_true, decide_eq_true_iff, decide_eq_true_iff]
          exact ((hrange _ hbound).eq_iff hk).symm
    have hlength : n + 1 < 2 ^ 64 := by
      unfold exprSize at hcapacity
      omega
    obtain ⟨e, he, hevaluates⟩ := exists_concatAll haxis n hlength hpieces
    dsimp only
    rw [he]
    rw [hset] at hevaluates
    refine ⟨e, rfl, hevaluates.congr fun i hi => ?_⟩
    rw [List.set_set, set_getD_self]

end Pieces

/-! ## One comparison -/

section Unit

variable {R : Type u} [CommRing R] {N : Numbers R} {calls : Calls (Tensor (Entry R))}
  {values : Env (Tensor (Entry R))} {indices grad : Expr} {elem : ElementType}
  {shape pre suf : List ℕ} {dim width : ℕ} {v g : List ℕ → Entry R}

theorem integerLiteral_zero : integerLiteral "0" = 0 := integerLiteral_nat 0

/-- Negative indices, counted from the end. -/
theorem evaluates_normalizeIndexTensor (hwidth : elem.intWidth = some width)
    (hdim : dim ≤ 2 ^ (width - 1))
    (hv : Evaluates N.arithmetic calls values indices ⟨elem, shape⟩ v)
    (hrange : ∀ i, InBounds i shape → InRange dim (elem.signed (v i).2)) :
    ∃ w : List ℕ → Entry R,
      Evaluates N.arithmetic calls values (normalizeIndexTensor indices elem dim) ⟨elem, shape⟩ w ∧
        ∀ i, InBounds i shape →
          elem.signed (w i).2 = normalized dim (elem.signed (v i).2) := by
  obtain ⟨hfloat, hnumeric, hzero⟩ := indexElem_facts hwidth
  have hbound : (dim : ℤ) ≤ 2 ^ (width - 1) := by exact_mod_cast hdim
  have hpositive : (0 : ℤ) < 2 ^ (width - 1) := by positivity
  have hshape := broadcastShapeSlices_comm
    (broadcastShapeSlices_eq_right_iff.mpr (broadcastsTo_nil shape))
  have hself := broadcastShapeSlices_eq_right_iff.mpr (broadcastsTo_refl shape)
  have hless := @inferCallResults_comparison elem shape [] shape .less rfl hnumeric hshape
  have hnegative : Decides N calls values (.call .less [indices, .const elem.zeroLiteral elem]) shape
      fun i => decide (elem.signed (v i).2 < 0) := by
    refine (decides_comparison hless rfl (fun _ _ _ => rfl) hshape hv
      (evaluates_integer calls values elem.zeroLiteral hfloat)).congr fun i hi => ?_
    rw [broadcastIndex_self hi, hzero, integerLiteral_zero, Numbers.lessAt, hfloat,
      if_neg Bool.false_ne_true,
      ElementType.signed_of_fits hwidth (n := 0) ⟨by omega, hpositive⟩]
  have hshifted := hv.binary_left .add hnumeric (broadcastsTo_nil shape)
    (evaluates_integer calls values (toString dim) hfloat)
  refine ⟨_, evaluates_where hself hself hnegative hshifted hv, fun i hi => ?_⟩
  rw [broadcastIndex_self hi, holds_truth]
  obtain ⟨hlow, hhigh⟩ := hrange i hi
  unfold normalized
  simp only [decide_eq_true_iff]
  split_ifs
  · show elem.signed ((v i).2 + integerLiteral (toString dim)) = _
    rw [integerLiteral_nat, ElementType.signed_add]
    exact ElementType.signed_of_fits hwidth ⟨by omega, by omega⟩
  · rfl

/-- The coordinates along an axis. -/
theorem evaluates_axisGrid (hwidth : elem.intWidth = some width) (hdim : dim ≤ 2 ^ (width - 1)) :
    ∃ w : List ℕ → Entry R,
      Evaluates N.arithmetic calls values
        (broadcastIfNeeded
          (reshapeIfNeeded
            (call (.arange ⟨elem, [dim]⟩)
              [scalar elem.zeroLiteral elem, scalar (toString dim) elem])
            ⟨elem, [dim]⟩
            ⟨elem, List.replicate pre.length 1 ++ ([dim] ++ List.replicate suf.length 1)⟩)
          ⟨elem, List.replicate pre.length 1 ++ ([dim] ++ List.replicate suf.length 1)⟩
          ⟨elem, pre ++ ([dim] ++ suf)⟩) ⟨elem, pre ++ ([dim] ++ suf)⟩ w ∧
        ∀ p k s, InBounds p pre → k < dim → InBounds s suf →
          elem.signed (w (p ++ k :: s)).2 = k := by
  obtain ⟨hfloat, hnumeric, hzero⟩ := indexElem_facts hwidth
  have htype : inferCallResults (.arange ⟨elem, [dim]⟩) [⟨elem, []⟩, ⟨elem, []⟩] =
      .ok [⟨elem, [dim]⟩] := by
    rcases eq_i32_or_i64 hwidth with rfl | rfl <;> rfl
  have hvalues : Evaluates N.arithmetic calls values
      (call (.arange ⟨elem, [dim]⟩) [scalar elem.zeroLiteral elem, scalar (toString dim) elem])
      ⟨elem, [dim]⟩ fun i => (0, integerLiteral elem.zeroLiteral) + ((i.getD 0 0 : ℕ) : Entry R) := by
    have hvalid : validateStaticCreationCall (.arange ⟨elem, [dim]⟩)
        [.const elem.zeroLiteral elem, .const (toString dim) elem] = .ok () := by
      rw [hzero]
      exact (staticArange_coordinates_iff hwidth dim).mpr hdim
    refine Evaluates.call_binary htype hvalid (evaluates_integer calls values _ hfloat)
      (evaluates_integer calls values (toString dim) hfloat) fun l r _ _ hl _ i _ => ?_
    show l.entry [] + ((i.getD 0 0 : ℕ) : Entry R) = _
    rw [hl [] .nil]
  have hprod : [dim].prod =
      (List.replicate pre.length 1 ++ ([dim] ++ List.replicate suf.length 1)).prod := by simp
  refine ⟨_, evaluates_broadcastIfNeeded (broadcastsTo_unitAxes pre [dim] suf)
    (evaluates_reshapeIfNeeded hprod hvalues), fun p k s hp hk hs => ?_⟩
  have hfits := (fitsWidth_coordinate hk hdim).1
  have hk : InBounds [k] [dim] := .cons hk .nil
  have hread := broadcastIndex_unitAxes hp hk hs
  rw [List.singleton_append, List.singleton_append, List.singleton_append] at hread
  rw [List.singleton_append, hread]
  have hposition := unravel_ravel_unitAxes pre.length suf.length hk
  rw [List.singleton_append, List.singleton_append] at hposition
  rw [reshaped, hposition, hzero, integerLiteral_zero]
  show elem.signed ((0 : ℤ) + ((k : ℕ) : Entry R).2) = k
  rw [zero_add, show ((k : ℕ) : Entry R).2 = k from Prod.snd_natCast k]
  exact ElementType.signed_of_fits hwidth hfits

theorem dim_eq_one_of_takeAlongAxisUnitGrad {indicesTy outputTy inputTy : TensorType} {axis : ℕ}
    {e : Expr}
    (hfast : takeAlongAxisUnitGrad indices indicesTy outputTy inputTy axis grad = some e) :
    indicesTy.dim axis = 1 := by
  by_contra hne
  unfold takeAlongAxisUnitGrad at hfast
  rw [if_pos (.inr (.inr hne))] at hfast
  cases hfast

/-- **One comparison selects the same entries as the pieces.** -/
theorem evaluates_takeAlongAxisUnitGrad {inputElem : ElementType} {axis : ℕ} {e : Expr}
    (haxis : axis = pre.length) (hwidth : elem.intWidth = some width)
    (hdim : dim ≤ 2 ^ (width - 1))
    (hv : Evaluates N.arithmetic calls values indices ⟨elem, pre ++ 1 :: suf⟩ v)
    (hg : Evaluates N.arithmetic calls values grad ⟨inputElem, pre ++ 1 :: suf⟩ g)
    (hfast : takeAlongAxisUnitGrad indices ⟨elem, pre ++ 1 :: suf⟩ ⟨inputElem, pre ++ 1 :: suf⟩
      ⟨inputElem, pre ++ dim :: suf⟩ axis grad = some e)
    (hrange : ∀ i, InBounds i (pre ++ 1 :: suf) → InRange dim (elem.signed (v i).2)) :
    Evaluates N.arithmetic calls values e ⟨inputElem, pre ++ dim :: suf⟩
      (push (pre ++ 1 :: suf)
        (fun i => some (indexedPosition pre.length 1 dim (fun i => elem.signed (v i).2) i)) g) := by
  subst haxis
  have hdimAt : (⟨inputElem, pre ++ dim :: suf⟩ : TensorType).dim pre.length = dim := by
    show (pre ++ dim :: suf).getD pre.length 0 = dim
    rw [List.getD_append_right _ _ _ _ le_rfl, Nat.sub_self]
    rfl
  have hgrid : (List.replicate (⟨inputElem, pre ++ dim :: suf⟩ : TensorType).rank 1).set pre.length
      dim = List.replicate pre.length 1 ++ ([dim] ++ List.replicate suf.length 1) := by
    have hrank : (⟨inputElem, pre ++ dim :: suf⟩ : TensorType).rank =
        pre.length + (suf.length + 1) := by simp [TensorType.rank]
    rw [hrank, List.replicate_add, List.set_append_right _ _ (by simp), List.length_replicate,
      Nat.sub_self, List.replicate_succ]
    rfl
  obtain ⟨w, hw, hnormalized⟩ := @evaluates_normalizeIndexTensor R _ N calls values indices elem
    (pre ++ 1 :: suf) dim width v hwidth hdim hv hrange
  obtain ⟨z, hz, hcoord⟩ := @evaluates_axisGrid R _ N calls values elem pre suf dim width hwidth hdim
  have hself := broadcastShapeSlices_eq_right_iff.mpr (broadcastsTo_refl (pre ++ dim :: suf))
  have hspread := evaluates_broadcastIfNeeded (broadcastsTo_unitAxis pre suf dim) hw
  have hcondition := decides_comparison (@inferCallResults_equal elem _ _ _ hself) rfl
    (fun _ _ _ => rfl) hself hz hspread
  have hmask := hcondition.mask (broadcastsTo_refl _)
    (evaluates_broadcastIfNeeded (broadcastsTo_unitAxis pre suf dim) hg)
  have happlies : ¬ ((⟨inputElem, pre ++ dim :: suf⟩ : TensorType).rank ≠
        (⟨elem, pre ++ 1 :: suf⟩ : TensorType).rank ∨
      (⟨elem, pre ++ 1 :: suf⟩ : TensorType).shape ≠
        (⟨inputElem, pre ++ 1 :: suf⟩ : TensorType).shape ∨
      (⟨elem, pre ++ 1 :: suf⟩ : TensorType).dim pre.length ≠ 1) := by
    rintro (hrank | hshape | hdim)
    · exact hrank (by simp [TensorType.rank])
    · exact hshape rfl
    · refine hdim ?_
      show (pre ++ 1 :: suf).getD pre.length 0 = 1
      rw [List.getD_append_right _ _ _ _ le_rfl, Nat.sub_self]
      rfl
  unfold takeAlongAxisUnitGrad at hfast
  rw [if_neg happlies] at hfast
  obtain rfl := Option.some.inj hfast
  rw [hdimAt]
  unfold tensor
  rw [hgrid]
  have hbroadcast : (if (⟨elem, pre ++ 1 :: suf⟩ : TensorType).shape =
        (⟨inputElem, pre ++ dim :: suf⟩ : TensorType).shape then normalizeIndexTensor indices elem dim
      else call (.broadcast ⟨elem, pre ++ dim :: suf⟩) [normalizeIndexTensor indices elem dim]) =
        broadcastIfNeeded (normalizeIndexTensor indices elem dim) ⟨elem, pre ++ 1 :: suf⟩
          ⟨elem, pre ++ dim :: suf⟩ := by
    unfold broadcastIfNeeded
    simp only [TensorType.mk.injEq, true_and]
  refine Evaluates.congr (x := ?_) ?_ ?_
  rotate_left
  · dsimp only
    rw [hbroadcast]
    exact hmask
  · intro i hi
    have hi : InBounds i (pre ++ dim :: suf) := hi
    obtain ⟨p, q, rfl, hp, hq⟩ := exists_append_of_inBounds hi
    cases hq with
    | @cons k _ s _ hk hs =>
        have hposition : InBounds (p ++ 0 :: s) (pre ++ 1 :: suf) :=
          inBounds_append hp (.cons Nat.one_pos hs)
        have hpush := @push_indexedPosition pre [1] suf p s dim (fun i => elem.signed (v i).2) (Entry R) _
          g k
          hp hs
        rw [sum_box_cons, Finset.sum_range_one, sum_box_nil] at hpush
        refine Eq.trans ?_ hpush.symm
        rw [broadcastIndex_self hi, broadcastIndex_self hi, broadcastIndex_unitAxis hp hs]
        refine if_congr ?_ rfl rfl
        unfold Numbers.equalAt
        rw [(indexElem_facts hwidth).1]
        rw [if_neg Bool.false_ne_true, decide_eq_true_iff, hcoord p k s hp hk hs,
          hnormalized _ hposition]
        have hlow := (hrange _ hposition)
        show (k : ℤ) = normalized dim (elem.signed (v (p ++ 0 :: s)).2) ↔
          (normalized dim (elem.signed (v (p ++ 0 :: s)).2)).toNat = k
        rw [hlow.eq_iff hk]
        unfold normalized
        obtain ⟨hlow, hhigh⟩ := hlow
        split_ifs <;> omega

end Unit

/-! ## Literals and coordinates of the gradients -/

section Literals

variable {indices input grad e s : Expr} {indicesTy outputTy inputTy sourceTy targetTy : TensorType}
  {axis width : ℕ}

theorem mem_subexprs_reshapeIfNeeded (h : s ∈ e.subexprs) :
    s ∈ (reshapeIfNeeded e sourceTy targetTy).subexprs := by
  unfold reshapeIfNeeded call
  split_ifs
  · exact h
  · simp [Expr.subexprs, h]

theorem mem_subexprs_broadcastIfNeeded (h : s ∈ e.subexprs) :
    s ∈ (broadcastIfNeeded e sourceTy targetTy).subexprs := by
  unfold broadcastIfNeeded call
  split_ifs
  · exact h
  · simp [Expr.subexprs, h]

theorem mem_subexprs_maskGrad_equal {lhs rhs : Expr} (h : s ∈ lhs.subexprs) :
    s ∈ (maskGrad (call .equal [lhs, rhs]) grad).subexprs := by
  have hcompared : s ∈ (call .equal [lhs, rhs]).subexprs :=
    List.mem_cons_of_mem _ (Expr.mem_subexprsList.mpr ⟨lhs, by simp, h⟩)
  exact List.mem_cons_of_mem _ (Expr.mem_subexprsList.mpr ⟨_, by simp, hcompared⟩)

@[simp] theorem literalsFit_reshapeIfNeeded :
    (reshapeIfNeeded e sourceTy targetTy).LiteralsFit ↔ e.LiteralsFit := by
  unfold reshapeIfNeeded call
  split_ifs <;> simp

@[simp] theorem literalsFit_broadcastIfNeeded :
    (broadcastIfNeeded e sourceTy targetTy).LiteralsFit ↔ e.LiteralsFit := by
  unfold broadcastIfNeeded call
  split_ifs <;> simp

@[simp] theorem literalsFit_reshapeIndexCondition :
    (reshapeIndexCondition e indicesTy outputTy axis).LiteralsFit ↔ e.LiteralsFit := by
  unfold reshapeIndexCondition call
  dsimp only
  split_ifs <;> simp

@[simp] theorem literalsFit_call {op : CallOp} {args : List Expr} :
    (call op args).LiteralsFit ↔ ∀ arg ∈ args, arg.LiteralsFit := Expr.literalsFit_call

@[simp] theorem literalsFit_scalar {text : String} {elem : ElementType} :
    (scalar text elem).LiteralsFit ↔ LiteralFits text elem := Expr.literalsFit_const

@[simp] theorem literalsFit_maskGrad :
    (maskGrad e grad).LiteralsFit ↔ e.LiteralsFit ∧ grad.LiteralsFit := by
  simp [maskGrad, zerosLike]

theorem literalsFit_sums (axes : List ℕ) :
    (axes.foldl (fun piece axis => call (.sum (.one axis)) [piece]) e).LiteralsFit ↔
      e.LiteralsFit := by
  induction axes generalizing e with
  | nil => exact Iff.rfl
  | cons axis axes ih =>
      rw [List.foldl_cons, ih]
      simp

theorem literalsFit_concatAll {pieces : List Expr} (h : concatAll axis pieces = some e) :
    e.LiteralsFit ↔ ∀ piece ∈ pieces, piece.LiteralsFit := by
  induction pieces using List.reverseRecOn generalizing e with
  | nil => cases h
  | append_singleton pieces piece ih =>
      rw [concatAll_append] at h
      obtain rfl := Option.some.inj h
      cases hprefix : concatAll axis pieces with
      | none =>
          obtain rfl : pieces = [] := by
            cases pieces with
            | nil => rfl
            | cons => cases hprefix
          simp
      | some acc =>
          simp only [literalsFit_call, List.mem_cons, List.not_mem_nil, or_false, forall_eq,
            ih hprefix, List.mem_append, or_imp, forall_and]

/-- The literals of a piece: its coordinate, counted from either end. -/
theorem literalsFit_indexedPiece_iff (hwidth : indicesTy.elem.intWidth = some width)
    (hindices : indices.LiteralsFit) (hgrad : grad.LiteralsFit) {reduceAxes : List ℕ} {k : ℕ} :
    (indexedPiece indices indicesTy outputTy inputTy axis reduceAxes grad k).LiteralsFit ↔
      k < 2 ^ width ∧ -2 ^ (width - 1) ≤ (k : ℤ) - inputTy.dim axis ∧
        (k : ℤ) - inputTy.dim axis < 2 ^ width := by
  have hcondition : (call .logicalOr [call .equal [indices, scalar (toString k) indicesTy.elem],
      call .equal [indices, scalar (toString ((k : ℤ) - inputTy.dim axis))
        indicesTy.elem]]).LiteralsFit ↔ k < 2 ^ width ∧
          -2 ^ (width - 1) ≤ (k : ℤ) - inputTy.dim axis ∧
            (k : ℤ) - inputTy.dim axis < 2 ^ width := by
    simp only [literalsFit_call, literalsFit_scalar, List.mem_cons, List.not_mem_nil, or_false,
      forall_eq_or_imp, forall_eq, hindices, true_and, literalFits_natCast hwidth,
      literalFits_toString hwidth]
  rw [← hcondition]
  unfold indexedPiece
  dsimp only
  rw [literalsFit_call, List.forall_mem_singleton, literalsFit_sums, literalsFit_maskGrad,
    and_iff_left hgrad]
  split_ifs
  · exact Iff.rfl
  · exact literalsFit_reshapeIndexCondition

/-- **The joined pieces are lowered exactly when the coordinates fit.** -/
theorem literalsFit_indexedAxisGrad_iff (hwidth : indicesTy.elem.intWidth = some width)
    (hinput : input.LiteralsFit) (hindices : indices.LiteralsFit) (hgrad : grad.LiteralsFit)
    {reduceAxes : List ℕ}
    (h : indexedAxisGrad input indices indicesTy outputTy inputTy axis reduceAxes grad = .ok e) :
    e.LiteralsFit ↔ inputTy.dim axis ≤ 2 ^ (width - 1) := by
  unfold indexedAxisGrad at h
  split_ifs at h with hzero hlarge
  · obtain rfl := Except.ok.inj h
    rw [hzero]
    simpa [zerosLike] using hinput
  · dsimp only at h
    cases hjoined : concatAll axis ((List.range (inputTy.dim axis)).map
        (indexedPiece indices indicesTy outputTy inputTy axis reduceAxes grad)) with
    | none =>
        rw [hjoined] at h
        cases h
    | some e' =>
        rw [hjoined] at h
        obtain rfl := Except.ok.inj h
        rw [literalsFit_concatAll hjoined]
        simp only [List.forall_mem_map, List.mem_range,
          literalsFit_indexedPiece_iff hwidth hindices hgrad]
        have hpowers : (2 : ℤ) ^ (width - 1) ≤ 2 ^ width :=
          pow_le_pow_right₀ one_le_two (Nat.sub_le width 1)
        constructor
        · intro hfits
          obtain ⟨-, hlow, -⟩ := hfits 0 (Nat.pos_of_ne_zero hzero)
          have hbound : (inputTy.dim axis : ℤ) ≤ 2 ^ (width - 1) := by omega
          exact_mod_cast hbound
        · intro hdim k hk
          have hbound : (inputTy.dim axis : ℤ) ≤ 2 ^ (width - 1) := by exact_mod_cast hdim
          have hcoordinate : (k : ℤ) < 2 ^ width := by omega
          exact ⟨by exact_mod_cast hcoordinate, by omega, by omega⟩

theorem literalsFit_takeAlongAxisUnitGrad (hwidth : indicesTy.elem.intWidth = some width)
    (hindices : indices.LiteralsFit) (hgrad : grad.LiteralsFit)
    (hdim : inputTy.dim axis ≤ 2 ^ (width - 1))
    (h : takeAlongAxisUnitGrad indices indicesTy outputTy inputTy axis grad = some e) :
    e.LiteralsFit := by
  have hpositive : 0 < 2 ^ (width - 1) := by positivity
  have hwide : 2 ^ width = 2 * 2 ^ (width - 1) := by
    rcases eq_i32_or_i64 hwidth with helem | helem <;> rw [helem] at hwidth <;> cases hwidth <;> rfl
  have hzero := (literalFits_natCast hwidth 0).mpr (by omega)
  have hsize := (literalFits_natCast hwidth (inputTy.dim axis)).mpr (by omega)
  have htext : indicesTy.elem.zeroLiteral = toString 0 := (indexElem_facts hwidth).2.2
  have hnormalized : (normalizeIndexTensor indices indicesTy.elem (inputTy.dim axis)).LiteralsFit := by
    unfold normalizeIndexTensor binary
    simp only [literalsFit_call, literalsFit_scalar, Expr.literalsFit_binary, List.mem_cons,
      List.not_mem_nil, or_false, forall_eq_or_imp, forall_eq, htext]
    exact ⟨⟨hindices, hzero⟩, ⟨hindices, hsize⟩, hindices⟩
  unfold takeAlongAxisUnitGrad at h
  split_ifs at h with hshape hsame
  all_goals
    obtain rfl := Option.some.inj h
    simp only [literalsFit_maskGrad, literalsFit_call, literalsFit_broadcastIfNeeded,
      literalsFit_reshapeIfNeeded, literalsFit_scalar, List.mem_cons, List.not_mem_nil, or_false,
      forall_eq_or_imp, forall_eq, htext]
    exact ⟨⟨⟨hzero, hsize⟩, hnormalized⟩, hgrad⟩

/-- **The shortcut has a value only if the coordinates fit**: they are an `arange`. -/
theorem dim_le_of_evaluates_takeAlongAxisUnitGrad {R : Type u} [CommRing R] {A : Arithmetic R}
    {calls : Calls (Tensor R)} {values : Env (Tensor R)} {a : List ℕ → R} {ty : TensorType}
    (hwidth : indicesTy.elem.intWidth = some width)
    (h : takeAlongAxisUnitGrad indices indicesTy outputTy inputTy axis grad = some e)
    (he : Evaluates A calls values e ty a) : inputTy.dim axis ≤ 2 ^ (width - 1) := by
  have hpart : Expr.call (.arange ⟨indicesTy.elem, [inputTy.dim axis]⟩)
      [.const "0" indicesTy.elem, .const (toString (inputTy.dim axis)) indicesTy.elem] ∈
        e.subexprs := by
    unfold takeAlongAxisUnitGrad at h
    rw [(indexElem_facts hwidth).2.2] at h
    split_ifs at h
    all_goals
      obtain rfl := Option.some.inj h
      exact mem_subexprs_maskGrad_equal (mem_subexprs_broadcastIfNeeded
        (mem_subexprs_reshapeIfNeeded (Expr.mem_subexprs_self _)))
  obtain ⟨t, ht, -⟩ := he
  obtain ⟨vs, hvs, -⟩ := Option.bind_eq_some_iff.mp ht
  obtain ⟨ws, hws⟩ := OpSemantics.exists_evalOutputs_of_mem_subexprs hpart hvs
  exact (staticArange_coordinates_iff hwidth _).mp (OpSemantics.checked_of_evalOutputs_call hws).1

end Literals

/-! ## The rules -/

section Rules

variable {R : Type u} [CommRing R] {N : Numbers R} {env : String → Option TensorType} {node : Node}
  {op : CallOp} {input indices grad : Expr} {inputTy indicesTy outputTy : TensorType}
  {calls : Calls (Tensor (Entry R))} {values : Env (Tensor (Entry R))} {g x v : List ℕ → Entry R}
  {pre mid suf : List ℕ} {dim width : ℕ}

/-- What an indexed read gives. -/
theorem callEntry_indexedRead (hop : op.indexAxis.isSome = true) (x y : Tensor (Entry R))
    (i : List ℕ) : N.arithmetic.callEntry op [x, y] 0 i =
      x.entry (op.readPosition x.ty y.ty (fun j => y.ty.elem.signed (y.entry j).2) i) := by
  cases op with
  | gather target axis => rfl
  | takeAlongAxis axis => rfl
  | _ => cases hop

omit [CommRing R] in
theorem layout_index (h : IndexTypes op inputTy indicesTy outputTy pre mid suf dim)
    (hrank : outputTy.rank < 2 ^ 64) (v : List ℕ → Entry R) :
    (indicesTy.shape = mid ∧ pre.length + mid.length + suf.length < 2 ^ 64 ∧
        ∀ i, IndexTypes.indexAt op indicesTy.rank (fun j => indicesTy.elem.signed (v j).2) i =
          indicesTy.elem.signed (v ((i.drop pre.length).take mid.length)).2) ∨
      indicesTy.shape = pre ++ (mid ++ suf) ∧
        ∀ i, IndexTypes.indexAt op indicesTy.rank (fun j => indicesTy.elem.signed (v j).2) i =
          indicesTy.elem.signed (v i).2 := by
  rw [h.ty_eq, TensorType.rank, List.length_append, List.length_append] at hrank
  rcases h.layout with ⟨rfl, hmid⟩ | ⟨rfl, -, hall⟩
  · refine .inl ⟨hmid, by omega, fun i => ?_⟩
    show indicesTy.elem.signed (v ((i.drop pre.length).take indicesTy.shape.length)).2 = _
    rw [hmid]
  · exact .inr ⟨hall, fun i => rfl⟩

/-- The vector of pieces is allocated. -/
theorem capacity_of_indexedAxisGrad {axis : ℕ} {reduceAxes : List ℕ} {e : Expr}
    (h : indexedAxisGrad input indices indicesTy outputTy inputTy axis reduceAxes grad = .ok e) :
    inputTy.dim axis * exprSize < 2 ^ 63 := by
  unfold indexedAxisGrad at h
  split_ifs at h with hzero hlarge
  · rw [hzero, Nat.zero_mul]
    exact Nat.two_pow_pos 63
  · exact not_le.mp hlarge

/-- **Both ways of building the gradient add up the entries that read a position**,
where the coordinates fit the element type of the indices. -/
theorem evaluates_indexedGradient
    (h : IndexTypes op inputTy indicesTy outputTy pre mid suf dim)
    (hnumeric : inputTy.elem.isNumeric = true) (hwidth : indicesTy.elem.intWidth = some width)
    (hdim : dim ≤ 2 ^ (width - 1))
    (hlayout : (indicesTy.shape = mid ∧ pre.length + mid.length + suf.length < 2 ^ 64 ∧
        ∀ i, IndexTypes.indexAt op indicesTy.rank (fun j => indicesTy.elem.signed (v j).2) i =
          indicesTy.elem.signed (v ((i.drop pre.length).take mid.length)).2) ∨
      indicesTy.shape = pre ++ (mid ++ suf) ∧
        ∀ i, IndexTypes.indexAt op indicesTy.rank (fun j => indicesTy.elem.signed (v j).2) i =
          indicesTy.elem.signed (v i).2)
    (hgrad : Evaluates N.arithmetic calls values grad outputTy g)
    (hx : Evaluates N.arithmetic calls values input inputTy x)
    (hv : Evaluates N.arithmetic calls values indices indicesTy v)
    (hrange : ∀ t, InBounds t indicesTy.shape → InRange dim (indicesTy.elem.signed (v t).2)) :
    (dim * exprSize < 2 ^ 63 → ∃ e, indexedAxisGrad input indices indicesTy outputTy inputTy
        pre.length ((List.range mid.length).map (pre.length + ·)) grad = .ok e) ∧
    (∀ e, indexedAxisGrad input indices indicesTy outputTy inputTy pre.length
        ((List.range mid.length).map (pre.length + ·)) grad = .ok e →
      Evaluates N.arithmetic calls values e inputTy (push outputTy.shape (fun i => some
        (op.readPosition inputTy indicesTy (fun j => indicesTy.elem.signed (v j).2) i)) g)) ∧
    ∀ e, op = .takeAlongAxis pre.length →
      takeAlongAxisUnitGrad indices indicesTy outputTy inputTy pre.length grad = some e →
      Evaluates N.arithmetic calls values e inputTy (push outputTy.shape (fun i => some
        (op.readPosition inputTy indicesTy (fun j => indicesTy.elem.signed (v j).2) i)) g) := by
  have hread := h.readPosition_eq fun j => indicesTy.elem.signed (v j).2
  have hreads := fun i (hi : InBounds i (pre ++ (mid ++ suf))) => h.indexAt_inRange hrange hi
  obtain ⟨elem, shape⟩ := inputTy
  obtain rfl : shape = pre ++ dim :: suf := h.input_shape
  rw [h.ty_eq] at hgrad ⊢
  rw [hread]
  have hjoined := fun hcapacity =>
    exists_indexedAxisGrad hnumeric hwidth hx hv hgrad hlayout hreads hdim hcapacity
  refine ⟨fun hcapacity => (hjoined hcapacity).imp fun e he => he.1, fun e he => ?_,
    fun e hop hfast => ?_⟩
  · have hcapacity := capacity_of_indexedAxisGrad he
    rw [h.dim_eq] at hcapacity
    obtain ⟨e', he', hevaluates⟩ := hjoined hcapacity
    rw [he] at he'
    cases he'
    exact hevaluates
  · rcases h.layout with ⟨hgather, -⟩ | ⟨-, hlen, hall⟩
    · rw [hgather] at hop
      cases hop
    · obtain ⟨m, rfl⟩ := List.length_eq_one_iff.mp hlen
      obtain ⟨indexElem, indexShape⟩ := indicesTy
      obtain rfl : indexShape = pre ++ ([m] ++ suf) := hall
      have hm : m = 1 := by
        have hunit : (pre ++ ([m] ++ suf)).getD pre.length 0 = 1 :=
          dim_eq_one_of_takeAlongAxisUnitGrad hfast
        rw [List.getD_append_right _ _ _ _ le_rfl, Nat.sub_self] at hunit
        exact hunit
      subst hm
      subst hop
      exact evaluates_takeAlongAxisUnitGrad rfl hwidth hdim hv hgrad hfast hrange

/-- **The entries that read a position, added up, are the adjoint of the read.** -/
theorem push_reads (h : IndexTypes op inputTy indicesTy outputTy pre mid suf dim)
    {axis : ℕ} (hop : op.indexAxis = some axis)
    (hrange : ∀ t, InBounds t indicesTy.shape → InRange dim (indicesTy.elem.signed (v t).2))
    (g : List ℕ → Entry R) :
    (∀ j, InBounds j inputTy.shape → push outputTy.shape (fun i => some
      (op.readPosition inputTy indicesTy (fun t => indicesTy.elem.signed (v t).2) i)) g j =
        ∑ i ∈ box outputTy.shape,
          if op.readPosition inputTy indicesTy (fun t => indicesTy.elem.signed (v t).2) i = j
          then g i else 0) ∧
    ∀ w : List ℕ → R,
      inner outputTy.shape (fun i => (N.arithmetic.callEntry op
        [⟨inputTy, fun j => number (w j)⟩, ⟨indicesTy, v⟩] 0 i).1) (fun i => (g i).1) =
          inner inputTy.shape w fun j => (push outputTy.shape (fun i => some
            (op.readPosition inputTy indicesTy (fun t => indicesTy.elem.signed (v t).2) i)) g j).1 := by
  refine ⟨fun j _ => Finset.sum_congr rfl fun i _ => if_congr Option.some_inj rfl rfl,
    fun w => ?_⟩
  have hmaps : MapsBox outputTy.shape inputTy.shape fun i =>
      some (op.readPosition inputTy indicesTy (fun t => indicesTy.elem.signed (v t).2) i) := by
    intro i hi j hj
    rw [← Option.some.inj hj, h.readPosition_eq, h.input_shape]
    rw [h.ty_eq] at hi
    exact inBounds_indexedPosition (fun i hi => h.indexAt_inRange hrange hi) hi
  have hfst : ∀ j, (push outputTy.shape (fun i => some
      (op.readPosition inputTy indicesTy (fun t => indicesTy.elem.signed (v t).2) i)) g j).1 =
        push outputTy.shape (fun i => some (op.readPosition inputTy indicesTy
          (fun t => indicesTy.elem.signed (v t).2) i)) (fun i => (g i).1) j := by
    intro j
    unfold push
    rw [Prod.fst_sum]
    exact Finset.sum_congr rfl fun i _ => by split_ifs <;> rfl
  simp only [hfst]
  rw [← inner_pull hmaps]
  refine inner_congr (fun i _ => ?_) fun _ _ => rfl
  rw [callEntry_indexedRead (by rw [hop]; rfl)]
  rfl

/-- The operation is a `take_along_axis` that the shortcut applies to. -/
def ReadsOne (op : CallOp) (indicesTy : TensorType) : Prop :=
  ∃ axis, op = .takeAlongAxis axis ∧ indicesTy.dim axis = 1

/-- **What the rules emit**: the shortcut where one entry is read along the axis, the
joined pieces otherwise. -/
theorem reverseCall_indexedRead (h : IndexTypes op inputTy indicesTy node.ty pre mid suf dim)
    (hfloat : node.ty.elem.isFloat = true) (hinput : exprTy env input = .ok inputTy)
    (hindices : exprTy env indices = .ok indicesTy) :
    (ReadsOne op indicesTy ∧ ∃ gx, op = .takeAlongAxis pre.length ∧
      takeAlongAxisUnitGrad indices indicesTy node.ty inputTy pre.length grad = some gx ∧
      reverseCall env node op [input, indices] grad = .ok [(input, gx)]) ∨
    ¬ ReadsOne op indicesTy ∧ reverseCall env node op [input, indices] grad =
      (indexedAxisGrad input indices indicesTy node.ty inputTy pre.length
        ((List.range mid.length).map (pre.length + ·)) grad).map fun gx => [(input, gx)] := by
  have hbind : ∀ general : Except Error Expr,
      (general.bind fun gx => (.ok [(input, gx)] : Contributions)) =
        general.map fun gx => [(input, gx)] := by
    rintro (message | gx) <;> rfl
  rcases h.layout with ⟨rfl, hmid⟩ | ⟨rfl, hlen, hall⟩
  · refine .inr ⟨?_, ?_⟩
    · rintro ⟨axis, hgather, -⟩
      cases hgather
    have hcall : reverseCall env node (.gather node.ty pre.length) [input, indices] grad =
        reverseGather env [input, indices] node.ty pre.length grad := by
      simp [reverseCall, callStopsGradient, hfloat]
    rw [hcall, reverseGather]
    show (exprTy env input).bind (fun inputTy => (exprTy env indices).bind _) = _
    rw [hinput, hindices, ← hmid]
    exact hbind _
  · have hcall : reverseCall env node (.takeAlongAxis pre.length) [input, indices] grad =
        reverseTakeAlongAxis env [input, indices] node.ty pre.length grad := by
      simp [reverseCall, callStopsGradient, hfloat]
    have hrule : reverseTakeAlongAxis env [input, indices] node.ty pre.length grad =
        match takeAlongAxisUnitGrad indices indicesTy node.ty inputTy pre.length grad with
        | some gx => .ok [(input, gx)]
        | none => (indexedAxisGrad input indices indicesTy node.ty inputTy pre.length [pre.length]
            grad).bind fun gx => .ok [(input, gx)] := by
      rw [reverseTakeAlongAxis]
      show (exprTy env input).bind (fun inputTy => (exprTy env indices).bind _) = _
      rw [hinput, hindices]
      rfl
    rw [hcall, hrule, hlen]
    cases hfast : takeAlongAxisUnitGrad indices indicesTy node.ty inputTy pre.length grad with
    | some gx =>
        exact .inl ⟨⟨_, rfl, dim_eq_one_of_takeAlongAxisUnitGrad hfast⟩, gx, rfl, rfl, rfl⟩
    | none =>
        refine .inr ⟨?_, hbind _⟩
        rintro ⟨axis, haxis, hunit⟩
        obtain rfl := CallOp.takeAlongAxis.inj haxis
        -- the types agree outside the axis, so the shortcut applies
        have happlies : ¬ (inputTy.rank ≠ indicesTy.rank ∨ indicesTy.shape ≠ node.ty.shape ∨
            indicesTy.dim pre.length ≠ 1) := by
          rintro (hrank | hshape | hdim)
          · refine hrank ?_
            unfold TensorType.rank
            rw [h.input_shape, hall]
            simp [hlen]
            omega
          · exact hshape (by rw [hall, h.ty_eq])
          · exact hdim hunit
        unfold takeAlongAxisUnitGrad at hfast
        rw [if_neg happlies] at hfast
        cases hfast

end Rules

/-- **When the rules of `gather` and `take_along_axis` emit the adjoint of the
read**: every position of the operand receives the sum of the entries that read it.
The emitted gradient is lowered and has this value exactly when the coordinates of
the axis fit the element type of the indices and the pieces, where they are built,
fit a vector. -/
theorem reverseIndexing_adjoint_iff {R : Type u} [CommRing R] (N : Numbers R)
    {env : String → Option TensorType} {node : Node} {op : CallOp} {axis width : ℕ}
    {input indices : Expr} {inputTy indicesTy : TensorType} (hop : op.indexAxis = some axis)
    (hinput : exprTy env input = .ok inputTy) (hindices : exprTy env indices = .ok indicesTy)
    (hok : inferCallResults op [inputTy, indicesTy] = .ok [node.ty])
    (hwidth : indicesTy.elem.intWidth = some width)
    (hfloat : node.ty.elem.isFloat = true) (hrank : node.ty.rank < 2 ^ 64)
    (calls : Calls (Tensor (Entry R))) (values : Env (Tensor (Entry R))) {grad : Expr}
    (hliterals : input.LiteralsFit ∧ indices.LiteralsFit ∧ grad.LiteralsFit)
    {g x v : List ℕ → Entry R} (hgrad : Evaluates N.arithmetic calls values grad node.ty g)
    (hx : Evaluates N.arithmetic calls values input inputTy x)
    (hv : Evaluates N.arithmetic calls values indices indicesTy v)
    (hrange : ∀ t, InBounds t indicesTy.shape →
      InRange (inputTy.dim axis) (indicesTy.elem.signed (v t).2)) :
    (∃ (gx : Expr) (a : List ℕ → Entry R),
      reverseCall env node op [input, indices] grad = .ok [(input, gx)] ∧
      gx.LiteralsFit ∧ Evaluates N.arithmetic calls values gx inputTy a ∧
      (∀ j, InBounds j inputTy.shape → a j = ∑ i ∈ box node.ty.shape,
        if op.readPosition inputTy indicesTy (fun t => indicesTy.elem.signed (v t).2) i = j then g i
        else 0) ∧
      ∀ w : List ℕ → R,
        inner node.ty.shape (fun i => (N.arithmetic.callEntry op
          [⟨inputTy, fun j => number (w j)⟩, ⟨indicesTy, v⟩] 0 i).1) (fun i => (g i).1) =
            inner inputTy.shape w fun j => (a j).1) ↔
    inputTy.dim axis ≤ 2 ^ (width - 1) ∧
      (ReadsOne op indicesTy ∨ inputTy.dim axis * exprSize < 2 ^ 63) := by
  obtain ⟨hinputFits, hindicesFit, hgradFits⟩ := hliterals
  obtain ⟨pre, mid, suf, dim, h⟩ := exists_indexTypes (by rw [hop]; rfl) hok
  obtain rfl : pre.length = axis := Option.some.inj (h.indexAxis_eq.symm.trans hop)
  have hemitted := @reverseCall_indexedRead env node op input indices grad inputTy indicesTy pre mid
    suf dim h hfloat hinput hindices
  constructor
  · rintro ⟨gx, a, hcall, hfits, hgx, -, -⟩
    rcases hemitted with ⟨hone, gx', -, hfast, hcall'⟩ | ⟨-, hcall'⟩
    · rw [hcall'] at hcall
      cases hcall
      exact ⟨dim_le_of_evaluates_takeAlongAxisUnitGrad hwidth hfast hgx, .inl hone⟩
    · rw [hcall'] at hcall
      cases hgeneral : indexedAxisGrad input indices indicesTy node.ty inputTy pre.length
          ((List.range mid.length).map (pre.length + ·)) grad with
      | error message =>
          rw [hgeneral] at hcall
          cases hcall
      | ok general =>
          rw [hgeneral] at hcall
          cases hcall
          exact ⟨(literalsFit_indexedAxisGrad_iff hwidth hinputFits hindicesFit hgradFits
            hgeneral).mp hfits, .inr (capacity_of_indexedAxisGrad hgeneral)⟩
  · rintro ⟨hdim, hroom⟩
    have hnumeric : inputTy.elem.isNumeric = true := by
      rw [h.ty_eq] at hfloat
      exact ElementType.isNumeric_of_isFloat hfloat
    have hsize := h.dim_eq
    rw [hsize] at hrange hroom
    obtain ⟨hemits, hgeneral, hshortcut⟩ := evaluates_indexedGradient h hnumeric hwidth
      (hsize ▸ hdim) (layout_index h hrank v) hgrad hx hv hrange
    rcases hemitted with ⟨-, gx, htake, hfast, hcall⟩ | ⟨hnot, hcall⟩
    · exact ⟨gx, _, hcall, literalsFit_takeAlongAxisUnitGrad hwidth hindicesFit hgradFits hdim hfast,
        hshortcut gx htake hfast, push_reads h hop hrange g⟩
    · obtain ⟨gx, hgx⟩ := hemits (hroom.resolve_left hnot)
      refine ⟨gx, _, by rw [hcall, hgx]; rfl, (literalsFit_indexedAxisGrad_iff hwidth hinputFits
        hindicesFit hgradFits hgx).mpr hdim, hgeneral gx hgx, push_reads h hop hrange g⟩

/-- Two reads of the last position, one of them from the end. -/
def repeatedReadNode : Node :=
  ⟨"z", .call (.gather ⟨.f32, [2]⟩ 0) [.var "x", .var "y"], ⟨.f32, [2]⟩⟩

/-- The indices of these reads. -/
def repeatedReads (i : List ℕ) : Entry ℤ := (0, if i = [0] then -1 else 2)

/-- Ones, read at the indices, and a gradient of ones. -/
def indexedValues (dims : List ℕ) (indices : List ℕ → Entry ℤ) : Env (Tensor (Entry ℤ)) :=
  operandValues ⟨⟨.f32, [3]⟩, fun _ => number 1⟩ ⟨⟨.i32, dims⟩, indices⟩
    ⟨⟨.f32, dims⟩, fun _ => number 1⟩

theorem repeatedReads_inRange (t : List ℕ) :
    InRange 3 (ElementType.i32.signed (repeatedReads t).2) := by
  unfold repeatedReads
  dsimp only
  split_ifs <;> decide

/-- The integers, compared as they are. -/
def integerNumbers : Numbers ℤ := .ofOrder (fun _ => 0) Int.tdiv

theorem reverseIndexing_adjoint_iff_repeated :
    ∃ (gx : Expr) (a : List ℕ → Entry ℤ),
      reverseCall (pairEnv ⟨.f32, [3]⟩ ⟨.i32, [2]⟩) repeatedReadNode (.gather ⟨.f32, [2]⟩ 0)
        [.var "x", .var "y"] (.var "g") = .ok [(.var "x", gx)] ∧
      gx.LiteralsFit ∧
      Evaluates integerNumbers.arithmetic noCalls (indexedValues [2] repeatedReads) gx
        ⟨.f32, [3]⟩ a ∧
      (∀ j, InBounds j [3] → a j = ∑ i ∈ box [2],
        if gatherPosition 0 1 3 (fun t => ElementType.i32.signed (repeatedReads t).2) i = j
        then number 1 else 0) ∧
      ∀ w : List ℕ → ℤ,
        inner [2] (fun i => (integerNumbers.arithmetic.callEntry (.gather ⟨.f32, [2]⟩ 0)
          [⟨⟨.f32, [3]⟩, fun j => number (w j)⟩, ⟨⟨.i32, [2]⟩, repeatedReads⟩] 0 i).1)
            (fun _ => 1) = inner [3] w fun j => (a j).1 :=
  (@reverseIndexing_adjoint_iff ℤ _ integerNumbers (pairEnv ⟨.f32, [3]⟩ ⟨.i32, [2]⟩)
    repeatedReadNode (.gather ⟨.f32, [2]⟩ 0) 0 32 (.var "x") (.var "y") ⟨.f32, [3]⟩ ⟨.i32, [2]⟩ rfl
    rfl rfl (by decide) rfl rfl (by decide) noCalls (indexedValues [2] repeatedReads) (.var "g")
    ⟨by simp, by simp, by simp⟩ _ _ _
    ⟨_, rfl, rfl, fun _ _ => rfl⟩ ⟨_, rfl, rfl, fun _ _ => rfl⟩ ⟨_, rfl, rfl, fun _ _ => rfl⟩
    fun t _ => repeatedReads_inRange t).mpr ⟨by decide, .inr (by decide)⟩

/-- One entry, read from an axis longer than the 32-bit integers. -/
def longAxisNode : Node :=
  ⟨"z", .call (.takeAlongAxis 0) [.var "x", .var "y"], ⟨.f32, [1]⟩⟩

/-- The coordinates of this axis are no `arange` of 32-bit integers. -/
theorem not_evaluates_longAxis {fast : Expr} (hfast : takeAlongAxisUnitGrad (.var "y") ⟨.i32, [1]⟩
      longAxisNode.ty ⟨.f32, [2 ^ 31 + 1]⟩ 0 (.var "g") = some fast)
    (calls : Calls (Tensor (Entry ℤ))) (values : Env (Tensor (Entry ℤ))) (a : List ℕ → Entry ℤ) :
    ¬ Evaluates integerNumbers.arithmetic calls values fast ⟨.f32, [2 ^ 31 + 1]⟩ a := by
  intro h
  have hdim : 2 ^ 31 + 1 ≤ 2 ^ (32 - 1) := dim_le_of_evaluates_takeAlongAxisUnitGrad rfl hfast h
  omega

/-- **A gradient without a value**: the coordinates of the axis are not 32-bit
integers. -/
theorem longAxis_gradient_noValue :
    inferCallResults (.takeAlongAxis 0) [⟨.f32, [2 ^ 31 + 1]⟩, ⟨.i32, [1]⟩] = .ok [longAxisNode.ty] ∧
      ∃ gx, reverseCall (pairEnv ⟨.f32, [2 ^ 31 + 1]⟩ ⟨.i32, [1]⟩) longAxisNode (.takeAlongAxis 0)
          [.var "x", .var "y"] (.var "g") = .ok [(.var "x", gx)] ∧
        ∀ (calls : Calls (Tensor (Entry ℤ))) (values : Env (Tensor (Entry ℤ))) a,
          ¬ Evaluates integerNumbers.arithmetic calls values gx ⟨.f32, [2 ^ 31 + 1]⟩ a :=
  ⟨rfl, _, rfl, not_evaluates_longAxis rfl⟩

/-- **When the shortcut of `take_along_axis` gives what the pieces give**: where it
applies, its expression has a value exactly when the coordinates of the axis fit the
element type of the indices, and then the joined pieces have the same value. -/
theorem takeAlongAxisUnitGrad_agrees_iff {R : Type u} [CommRing R] (N : Numbers R) {axis width : ℕ}
    {input indices grad fast : Expr} {inputTy indicesTy outputTy : TensorType}
    (hok : inferCallResults (.takeAlongAxis axis) [inputTy, indicesTy] = .ok [outputTy])
    (hnumeric : inputTy.elem.isNumeric = true) (hwidth : indicesTy.elem.intWidth = some width)
    (hfast : takeAlongAxisUnitGrad indices indicesTy outputTy inputTy axis grad = some fast)
    (hliterals : input.LiteralsFit ∧ indices.LiteralsFit ∧ grad.LiteralsFit)
    (calls : Calls (Tensor (Entry R))) (values : Env (Tensor (Entry R)))
    {g x v : List ℕ → Entry R} (hgrad : Evaluates N.arithmetic calls values grad outputTy g)
    (hx : Evaluates N.arithmetic calls values input inputTy x)
    (hv : Evaluates N.arithmetic calls values indices indicesTy v)
    (hrange : ∀ t, InBounds t indicesTy.shape →
      InRange (inputTy.dim axis) (indicesTy.elem.signed (v t).2)) :
    (fast.LiteralsFit ∧ ∃ a : List ℕ → Entry R,
      Evaluates N.arithmetic calls values fast inputTy a ∧
      (inputTy.dim axis * exprSize < 2 ^ 63 → ∃ general,
        indexedAxisGrad input indices indicesTy outputTy inputTy axis [axis] grad = .ok general) ∧
      ∀ general,
        indexedAxisGrad input indices indicesTy outputTy inputTy axis [axis] grad = .ok general →
          general.LiteralsFit ∧ Evaluates N.arithmetic calls values general inputTy a) ↔
    inputTy.dim axis ≤ 2 ^ (width - 1) := by
  obtain ⟨hinputFits, hindicesFit, hgradFits⟩ := hliterals
  constructor
  · rintro ⟨-, a, ha, -⟩
    exact dim_le_of_evaluates_takeAlongAxisUnitGrad hwidth hfast ha
  · intro hdim
    obtain ⟨pre, mid, suf, dim, h⟩ := exists_indexTypes rfl hok
    obtain rfl : pre.length = axis := Option.some.inj (h.indexAxis_eq.symm.trans rfl)
    have hsize := h.dim_eq
    rw [hsize] at hrange ⊢
    rcases h.layout with ⟨hgather, -⟩ | ⟨-, hlen, hall⟩
    · cases hgather
    · obtain ⟨hemits, hgeneral, hunit⟩ := evaluates_indexedGradient h hnumeric hwidth
        (hsize ▸ hdim) (.inr ⟨hall, fun _ => rfl⟩) hgrad hx hv hrange
      rw [hlen] at hemits hgeneral
      exact ⟨literalsFit_takeAlongAxisUnitGrad hwidth hindicesFit hgradFits hdim hfast, _,
        hunit fast rfl hfast, hemits, fun general hok => ⟨(literalsFit_indexedAxisGrad_iff hwidth
          hinputFits hindicesFit hgradFits hok).mpr hdim, hgeneral general hok⟩⟩

theorem takeAlongAxisUnitGrad_agrees_iff_last :
    ∃ fast, takeAlongAxisUnitGrad (.var "y") ⟨.i32, [1]⟩ ⟨.f32, [1]⟩ ⟨.f32, [3]⟩ 0 (.var "g") =
        some fast ∧
      fast.LiteralsFit ∧ ∃ a : List ℕ → Entry ℤ,
        Evaluates integerNumbers.arithmetic noCalls (indexedValues [1] repeatedReads) fast
          ⟨.f32, [3]⟩ a ∧
        (3 * exprSize < 2 ^ 63 → ∃ general, indexedAxisGrad (.var "x") (.var "y") ⟨.i32, [1]⟩
          ⟨.f32, [1]⟩ ⟨.f32, [3]⟩ 0 [0] (.var "g") = .ok general) ∧
        ∀ general, indexedAxisGrad (.var "x") (.var "y") ⟨.i32, [1]⟩ ⟨.f32, [1]⟩ ⟨.f32, [3]⟩ 0 [0]
            (.var "g") = .ok general →
          general.LiteralsFit ∧ Evaluates integerNumbers.arithmetic noCalls
            (indexedValues [1] repeatedReads) general ⟨.f32, [3]⟩ a :=
  ⟨_, rfl, (@takeAlongAxisUnitGrad_agrees_iff ℤ _ integerNumbers 0 32 (.var "x") (.var "y")
    (.var "g") _ ⟨.f32, [3]⟩ ⟨.i32, [1]⟩ ⟨.f32, [1]⟩ (by decide) rfl rfl rfl
    ⟨by simp, by simp, by simp⟩ noCalls (indexedValues [1] repeatedReads) _ _ _
    ⟨_, rfl, rfl, fun _ _ => rfl⟩ ⟨_, rfl, rfl, fun _ _ => rfl⟩ ⟨_, rfl, rfl, fun _ _ => rfl⟩
    fun t _ => repeatedReads_inRange t).mpr (by decide)⟩

/-- **A shortcut without a value**, on the axis that is too long for its indices. -/
theorem takeAlongAxisUnitGrad_longAxis :
    ∃ fast, takeAlongAxisUnitGrad (.var "y") ⟨.i32, [1]⟩ longAxisNode.ty ⟨.f32, [2 ^ 31 + 1]⟩ 0
        (.var "g") = some fast ∧
      inferCallResults (.takeAlongAxis 0) [⟨.f32, [2 ^ 31 + 1]⟩, ⟨.i32, [1]⟩] =
        .ok [longAxisNode.ty] ∧
      ∀ (calls : Calls (Tensor (Entry ℤ))) (values : Env (Tensor (Entry ℤ))) a,
        ¬ Evaluates integerNumbers.arithmetic calls values fast ⟨.f32, [2 ^ 31 + 1]⟩ a :=
  ⟨_, rfl, rfl, not_evaluates_longAxis rfl⟩

end Knok.Autograd
