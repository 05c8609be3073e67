import Mathlib
import Knok.NumberRules
import Knok.Autograd.Adjoint.Matmul
import Knok.Autograd.Adjoint.Reduction

/-!
# Gradients of contractions

The rules of dot, inner and outer products, traces and diagonals emit, for every
operand, an expression that is compared with the adjoint of the operation in that
operand.

### Design decisions

* **Two ways to the adjoint.**  Dot products, traces and diagonals multiply the
  spread gradient; inner and outer products flatten the operands to matrices and
  multiply those.
* **Counts.**  The matrices have dimensions that are multiplied up in 64 bits.
  Where one wraps, the emitted expression still has a type; it is evaluated at
  tensors of ones, which tells how many entries it adds up.
-/

namespace Knok.Autograd

open Arrays Control

universe u

/-! ## Diagonals -/

section Diagonals

variable {a b rank : ℕ} {shape : List ℕ}

theorem otherAxes_eq (h : PairFits a b rank) :
    otherAxes rank (a, b) = erasePair a b (List.range rank) := filter_range_pair h

theorem removePairShape_eq (h : PairFits a b shape.length) :
    removePairShape shape (a, b) = erasePair a b shape := map_filter_range_pair h

theorem diagonalAxes_eq {inputTy : TensorType} {axes : Option (ℕ × ℕ)}
    (haxes : pairAxes axes inputTy.shape.length = (a, b)) (h : PairFits a b inputTy.shape.length) :
    diagonalAxes inputTy axes = .ok (a, b) := by
  obtain ⟨ha, hb, hne⟩ := h
  have hpair : axes.getD (inputTy.rank - 2, inputTy.rank - 1) = (a, b) := haxes
  have hrank : inputTy.rank = inputTy.shape.length := rfl
  rw [diagonalAxes, if_neg (by omega), hpair]
  refine if_neg ?_
  rintro (h | h | h)
  · exact absurd ha (Nat.not_lt.mpr h)
  · exact absurd hb (Nat.not_lt.mpr h)
  · exact hne h

/-- Where the axes with the diagonal last come from. -/
def compactPlaces (a b rank : ℕ) : List ℕ := otherAxes rank (a, b) ++ [a, b]

/-- Where the axes go when the diagonal is moved back. -/
def compactAxes (a b rank : ℕ) : List ℕ :=
  (List.range rank).map fun axis =>
    if axis = a then (otherAxes rank (a, b)).length
    else if axis = b then (otherAxes rank (a, b)).length + 1
    else (otherAxes rank (a, b)).idxOf axis

theorem mem_otherAxes {axis : ℕ} :
    axis ∈ otherAxes rank (a, b) ↔ axis < rank ∧ axis ≠ a ∧ axis ≠ b := by
  simp [otherAxes]

theorem length_otherAxes (h : PairFits a b rank) :
    (otherAxes rank (a, b)).length + 2 = rank := by
  have hrange : PairFits a b (List.range rank).length := by rwa [List.length_range]
  have hlen := length_erasePair hrange
  obtain ⟨ha, hb, hne⟩ := h
  rw [otherAxes_eq ⟨ha, hb, hne⟩, hlen, List.length_range]
  omega

theorem inverseAxes_compact (h : PairFits a b rank) :
    InverseAxes rank (compactPlaces a b rank) (compactAxes a b rank) := by
  have hlen := length_otherAxes h
  obtain ⟨ha, hb, hne⟩ := h
  have hnodup : (otherAxes rank (a, b)).Nodup := List.nodup_range.filter _
  refine ⟨perm_range_of_nodup ?_ ?_ ?_, by simp [compactAxes], ?_⟩
  · rw [compactPlaces, List.length_append]
    exact hlen
  · refine List.nodup_append.mpr ⟨hnodup, by simp [hne], ?_⟩
    rintro axis hmem other hother rfl
    obtain ⟨-, hneA, hneB⟩ := mem_otherAxes.mp hmem
    simp [hneA, hneB] at hother
  · intro axis hmem
    rcases List.mem_append.mp hmem with hmem | hmem
    · exact (mem_otherAxes.mp hmem).1
    · rcases List.mem_pair.mp hmem with rfl | rfl
      · exact ha
      · exact hb
  · intro k hk
    rcases Nat.lt_or_ge k (otherAxes rank (a, b)).length with hlt | hge
    · have hget : (compactPlaces a b rank).getD k 0 = (otherAxes rank (a, b))[k] := by
        rw [compactPlaces, List.getD_append _ _ _ _ hlt, List.getD_eq_getElem _ _ hlt]
      obtain ⟨hrank, hneA, hneB⟩ := mem_otherAxes.mp (List.getElem_mem hlt)
      rw [hget, compactAxes, getD_map_range _ hrank, if_neg hneA, if_neg hneB]
      exact hnodup.idxOf_getElem k hlt
    · rw [compactPlaces, List.getD_append_right _ _ _ _ hge]
      rcases (show k - (otherAxes rank (a, b)).length = 0 ∨
        k - (otherAxes rank (a, b)).length = 1 by omega) with hzero | hone
      · rw [hzero]
        show (compactAxes a b rank).getD a 0 = k
        rw [compactAxes, getD_map_range _ ha, if_pos rfl]
        omega
      · rw [hone]
        show (compactAxes a b rank).getD b 0 = k
        rw [compactAxes, getD_map_range _ hb, if_neg hne.symm, if_pos rfl]
        omega

theorem map_compactPlaces {i : List ℕ} (h : PairFits a b i.length) :
    (compactPlaces a b i.length).map (fun axis => i.getD axis 0) =
      erasePair a b i ++ [i.getD a 0, i.getD b 0] := by
  rw [compactPlaces, List.map_append, ← removePairShape_eq h]
  rfl

/-- A permuted position, listed by the inverse axes. -/
theorem permutePosition_eq_map {axes inverse i : List ℕ} (h : InverseAxes rank axes inverse) :
    permutePosition axes i = inverse.map fun axis => i.getD axis 0 := by
  have hlen : axes.length = rank := h.symm.length_eq
  refine List.ext_getElem ?_ fun axis haxis haxis' => ?_
  · rw [length_permutePosition, List.length_map, hlen, h.length_eq]
  · rw [length_permutePosition, hlen] at haxis
    have hlt : axis < inverse.length := by simpa using haxis'
    have hget : inverse.getD axis 0 = inverse[axis] := List.getD_eq_getElem _ _ hlt
    rw [← List.getD_eq_getElem _ 0, getD_permutePosition (hlen.symm ▸ haxis),
      ← h.getD_eq_idxOf haxis, List.getElem_map, hget]

/-- Moving the diagonal back. -/
theorem permutePosition_compactAxes {j : List ℕ} (h : PairFits a b j.length) :
    permutePosition (compactAxes a b j.length) j = erasePair a b j ++ [j.getD a 0, j.getD b 0] := by
  rw [permutePosition_eq_map (inverseAxes_compact h).symm, map_compactPlaces h]

variable {R : Type u} [CommRing R] {N : Numbers R} {calls : Calls (Tensor (Entry R))}
  {values : Env (Tensor (Entry R))} {e grad : Expr} {elem : ElementType} {x g : List ℕ → Entry R}

/-- An identity matrix. -/
theorem evaluates_eye (n : ℕ) :
    Evaluates N.arithmetic calls values (call (.eye ⟨elem, [n, n]⟩) []) ⟨elem, [n, n]⟩
      fun i => if i.getD 0 0 = i.getD 1 0 then 1 else 0 := by
  have htarget : validateStaticEyeTarget ⟨elem, [n, n]⟩ = .ok () := by
    simp [validateStaticEyeTarget, TensorType.rank, TensorType.dim, failIf_eq_ok_iff,
      except_bind_eq_ok_iff]
  have htype : inferCallResults (.eye ⟨elem, [n, n]⟩) [] = .ok [⟨elem, [n, n]⟩] := by
    show (validateStaticEyeTarget ⟨elem, [n, n]⟩).bind _ = _
    rw [htarget]
    rfl
  have hvalid : validateStaticCreationCall (.eye ⟨elem, [n, n]⟩) [] = .ok () := by
    show (staticEyeLiterals ⟨elem, [n, n]⟩).bind (fun _ => Except.ok ()) = _
    unfold staticEyeLiterals
    rw [htarget]
    rfl
  exact ⟨⟨⟨elem, [n, n]⟩, N.arithmetic.callEntry (.eye ⟨elem, [n, n]⟩) [] 0⟩,
    @evalTensor_call _ _ _ _ _ _ _ [] [] hvalid htype rfl, rfl, fun _ _ => rfl⟩

/-- A gradient with two unit axes in place of the diagonal, or one. -/
theorem broadcastIndex_diagonal {t i : List ℕ} (hi : InBounds i t) (n k l : ℕ) :
    broadcastIndex (t ++ [n, 1]) (i ++ [k, l]) = i ++ [if n = 1 then 0 else k, 0] := by
  rw [broadcastIndex_of_length_eq (by simp [hi.length_eq]),
    List.zipWith_append hi.length_eq.symm, zipWith_self hi]
  rfl

/-- A matrix that is repeated along leading axes. -/
theorem broadcastIndex_matrix {m n k l : ℕ} (i : List ℕ) (hk : k < m) (hl : l < n) :
    broadcastIndex [m, n] (i ++ [k, l]) = [k, l] :=
  @broadcastIndex_append [] [m, n] i [k, l] (Nat.zero_le _) (.cons hk (.cons hl .nil))

/-- The emitted expression, with the shape that has the diagonal last. -/
theorem diagonalContribution_eq (h : PairFits a b shape.length)
    (hdim : shape.getD b 0 = shape.getD a 0) (arg : Expr) (elem : ElementType)
    (gradShape : List ℕ) (grad : Expr) :
    diagonalContribution arg ⟨elem, shape⟩ (a, b) gradShape grad =
      [(arg, call (.permuteDims (compactAxes a b shape.length))
        [binary .mul
          (call (.broadcast ⟨elem, erasePair a b shape ++ [shape.getD a 0, shape.getD a 0]⟩)
            [call (.reshape ⟨elem, gradShape⟩) [grad]])
          (call (.broadcast ⟨elem, erasePair a b shape ++ [shape.getD a 0, shape.getD a 0]⟩)
            [call (.eye ⟨elem, [shape.getD a 0, shape.getD a 0]⟩) []])])] := by
  have hcompactTy : diagonalCompactType ⟨elem, shape⟩ (a, b) =
      ⟨elem, erasePair a b shape ++ [shape.getD a 0, shape.getD a 0]⟩ := by
    rw [diagonalCompactType, removePairShape_eq h]
    show (⟨elem, erasePair a b shape ++ [shape.getD a 0, shape.getD b 0]⟩ : TensorType) = _
    rw [hdim]
  have heye : diagonalEye ⟨elem, shape⟩ (a, b) (diagonalCompactType ⟨elem, shape⟩ (a, b)) =
      call (.broadcast ⟨elem, erasePair a b shape ++ [shape.getD a 0, shape.getD a 0]⟩)
        [call (.eye ⟨elem, [shape.getD a 0, shape.getD a 0]⟩) []] := by
    rw [diagonalEye, hcompactTy]
    show call _ [call (.eye ⟨elem, [shape.getD a 0, shape.getD b 0]⟩) []] = _
    rw [hdim]
  rw [diagonalContribution]
  dsimp only
  rw [heye, hcompactTy]
  rfl

/-- **A gradient placed on a diagonal.** -/
theorem evaluates_diagonalContribution (h : PairFits a b shape.length)
    (hdim : shape.getD b 0 = shape.getD a 0) (helem : elem.isNumeric = true) (arg : Expr)
    {source : List ℕ} {n : ℕ} (hn : n = shape.getD a 0 ∨ n = 1)
    (hprod : source.prod = (erasePair a b shape ++ [n, 1]).prod)
    (hg : Evaluates N.arithmetic calls values grad ⟨elem, source⟩ g) :
    ∃ gx, diagonalContribution arg ⟨elem, shape⟩ (a, b) (erasePair a b shape ++ [n, 1]) grad =
        [(arg, gx)] ∧
      Evaluates N.arithmetic calls values gx ⟨elem, shape⟩ fun j =>
        reshaped source (erasePair a b shape ++ [n, 1]) g
          (erasePair a b j ++ [if n = 1 then 0 else j.getD a 0, 0]) *
            if j.getD a 0 = j.getD b 0 then 1 else 0 := by
  refine ⟨_, diagonalContribution_eq h hdim arg elem _ grad, ?_⟩
  have hgrad : Evaluates N.arithmetic calls values _
      ⟨elem, erasePair a b shape ++ [shape.getD a 0, shape.getD a 0]⟩ _ :=
    (hg.reshape hprod).broadcast (broadcastsTo_of_forall₂
      (List.rel_append (forall₂_self _) (.cons hn (.cons (.inr rfl) .nil))))
  have hmatrix : BroadcastsTo [shape.getD a 0, shape.getD a 0]
      (erasePair a b shape ++ [shape.getD a 0, shape.getD a 0]) :=
    broadcastsTo_append (broadcastsTo_nil _) _
  have heye := (@evaluates_eye R _ N calls values elem (shape.getD a 0)).broadcast hmatrix
  have hinverse := inverseAxes_compact h
  have hshape := map_compactPlaces h
  rw [hdim] at hshape
  have htyped := @MovementTyped.permuteDims elem
    (erasePair a b shape ++ [shape.getD a 0, shape.getD a 0]) (compactAxes a b shape.length) (by
      rw [← hshape, List.length_map, hinverse.symm.length_eq]
      exact hinverse.symm.perm)
  have hresult : (compactAxes a b shape.length).map (fun axis =>
      (erasePair a b shape ++ [shape.getD a 0, shape.getD a 0]).getD axis 0) = shape := by
    rw [← hshape]
    exact hinverse.map_map_getD rfl
  rw [hresult] at htyped
  refine ((hgrad.mul helem heye).movement_total htyped
    (inferCallResults_of_movementTyped htyped trivial) (fun _ _ => nofun) fun _ => rfl).congr
      fun j hj => ?_
  have hlen := hj.length_eq
  have hfits : PairFits a b j.length := by rwa [hlen]
  have hcompact : permutePosition (compactAxes a b shape.length) j =
      erasePair a b j ++ [j.getD a 0, j.getD b 0] := by
    rw [← hlen]
    exact permutePosition_compactAxes hfits
  have hb := hj.getD_lt h.2.1
  rw [hdim] at hb
  dsimp only
  rw [hcompact, broadcastIndex_diagonal (inBounds_erasePair hj),
    broadcastIndex_matrix _ (hj.getD_lt h.1) hb]
  rfl

end Diagonals

/-! ## Exactness -/

section Exactness

variable {R : Type u} [CommRing R]

/-- The expressions emitted for the operands have the types of the operands and are
the adjoints of the operation in each of them. -/
def EmitsAdjoints (N : Numbers R) (calls : Calls (Tensor (Entry R)))
    (values : Env (Tensor (Entry R))) (env : String → Option TensorType) (node : Node)
    (op : CallOp) (args : List Expr) (operands : List (Tensor (Entry R))) (grad : Expr)
    (g : List ℕ → Entry R) : Prop :=
  ∃ grads : List Expr, reverseCall env node op args grad = .ok (args.zip grads) ∧
    grads.length = args.length ∧
      ∀ (n : ℕ) (t : Tensor (Entry R)) (gx : Expr), operands[n]? = some t → grads[n]? = some gx →
        ∃ a : List ℕ → Entry R, Evaluates N.arithmetic calls values gx t.ty a ∧
          ∀ v, inner node.ty.shape g (N.arithmetic.callEntry op (operands.set n ⟨t.ty, v⟩) 0) =
            inner t.ty.shape a v

variable {N : Numbers R} {calls : Calls (Tensor (Entry R))} {values : Env (Tensor (Entry R))}
  {env : String → Option TensorType} {node : Node} {op : CallOp} {lhs rhs grad gl gr : Expr}
  {lhsTy rhsTy : TensorType} {x y g a b : List ℕ → Entry R} {elem : ElementType} {shape : List ℕ}

theorem emitsAdjoints_single
    (hcall : reverseCall env node op [lhs] grad = .ok [(lhs, gl)])
    (ha : Evaluates N.arithmetic calls values gl lhsTy a)
    (hadjoint : ∀ v, inner node.ty.shape g (N.arithmetic.callEntry op [⟨lhsTy, v⟩] 0) =
      inner lhsTy.shape a v) :
    EmitsAdjoints N calls values env node op [lhs] [⟨lhsTy, x⟩] grad g := by
  refine ⟨[gl], hcall, rfl, fun n t gx ht hgx => ?_⟩
  match n with
  | 0 =>
      cases ht
      cases hgx
      exact ⟨a, ha, hadjoint⟩
  | n + 1 => cases ht

theorem emitsAdjoints_pair
    (hcall : reverseCall env node op [lhs, rhs] grad = .ok [(lhs, gl), (rhs, gr)])
    (ha : Evaluates N.arithmetic calls values gl lhsTy a)
    (hb : Evaluates N.arithmetic calls values gr rhsTy b)
    (hl : ∀ v, inner node.ty.shape g (N.arithmetic.callEntry op [⟨lhsTy, v⟩, ⟨rhsTy, y⟩] 0) =
      inner lhsTy.shape a v)
    (hr : ∀ v, inner node.ty.shape g (N.arithmetic.callEntry op [⟨lhsTy, x⟩, ⟨rhsTy, v⟩] 0) =
      inner rhsTy.shape b v) :
    EmitsAdjoints N calls values env node op [lhs, rhs] [⟨lhsTy, x⟩, ⟨rhsTy, y⟩] grad g := by
  refine ⟨[gl, gr], hcall, rfl, fun n t gx ht hgx => ?_⟩
  match n with
  | 0 =>
      cases ht
      cases hgx
      exact ⟨a, ha, hl⟩
  | 1 =>
      cases ht
      cases hgx
      exact ⟨b, hb, hr⟩
  | n + 2 => cases ht

theorem vecdot_comm (axis : ℕ) (shape : List ℕ) (x y : List ℕ → Entry R) :
    vecdot axis shape x y = vecdot axis shape y x :=
  funext fun _ => Finset.sum_congr rfl fun _ _ => mul_comm _ _

/-- **The rule of `dot`.** -/
theorem dot_emitsAdjoints {n : ℕ} (hfloat : elem.isFloat = true) (hnode : node.ty = ⟨elem, []⟩)
    (hx : Evaluates N.arithmetic calls values lhs ⟨elem, [n]⟩ x)
    (hy : Evaluates N.arithmetic calls values rhs ⟨elem, [n]⟩ y)
    (hg : Evaluates N.arithmetic calls values grad ⟨elem, []⟩ g) :
    EmitsAdjoints N calls values env node .dot [lhs, rhs] [⟨⟨elem, [n]⟩, x⟩, ⟨⟨elem, [n]⟩, y⟩]
      grad g := by
  have hnumeric := ElementType.isNumeric_of_isFloat hfloat
  have hcall : reverseCall env node .dot [lhs, rhs] grad =
      .ok [(lhs, binary .mul grad rhs), (rhs, binary .mul grad lhs)] := by
    simp only [reverseCall, callStopsGradient, hnode, hfloat, Bool.not_true]
    rfl
  have hadjoint : ∀ z v : List ℕ → Entry R, inner [] g (vecdot 0 [n] v z) =
      inner [n] (fun i => g (broadcastIndex [] i) * z i) v := by
    intro z v
    refine (@inner_vecdot _ _ [n] 0 Nat.zero_lt_one g v z).trans ?_
    refine inner_congr (fun i hi => ?_) fun _ _ => rfl
    cases hi with
    | cons hk hrest =>
        cases hrest
        rfl
  refine emitsAdjoints_pair hcall (hg.binary_right .mul hnumeric (broadcastsTo_nil _) hy)
    (hg.binary_right .mul hnumeric (broadcastsTo_nil _) hx) (fun v => ?_) fun v => ?_
  · rw [hnode]
    exact hadjoint y v
  · rw [hnode]
    show inner [] g (vecdot 0 [n] x v) = _
    rw [vecdot_comm]
    exact hadjoint x v

/-- **The rule of `vecdot`.** -/
theorem vecdot_emitsAdjoints {axis : Option ℕ} (hfloat : elem.isFloat = true)
    (haxis : axis.getD (shape.length - 1) < shape.length)
    (hnode : node.ty = ⟨elem, shape.eraseIdx (axis.getD (shape.length - 1))⟩)
    (hlhs : exprTy env lhs = .ok ⟨elem, shape⟩)
    (hx : Evaluates N.arithmetic calls values lhs ⟨elem, shape⟩ x)
    (hy : Evaluates N.arithmetic calls values rhs ⟨elem, shape⟩ y)
    (hg : Evaluates N.arithmetic calls values grad
      ⟨elem, shape.eraseIdx (axis.getD (shape.length - 1))⟩ g) :
    EmitsAdjoints N calls values env node (.vecdot axis) [lhs, rhs]
      [⟨⟨elem, shape⟩, x⟩, ⟨⟨elem, shape⟩, y⟩] grad g := by
  have hnumeric := ElementType.isNumeric_of_isFloat hfloat
  have hfits : (AxisSpec.one (axis.getD (shape.length - 1))).Fits shape := haxis
  have hspread := evaluates_expandReductionGrad hfits hg
  refine emitsAdjoints_pair ?_ (hspread.mul hnumeric hy) (hspread.mul hnumeric hx) (fun v => ?_)
    fun v => ?_
  · simp only [reverseCall, callStopsGradient, hnode, hfloat, Bool.not_true]
    show (exprTy env lhs).bind _ = _
    rw [hlhs]
    rfl
  · rw [hnode]
    exact inner_vecdot haxis g v y
  · rw [hnode]
    show inner _ g (vecdot (axis.getD (shape.length - 1)) shape x v) = _
    rw [vecdot_comm]
    exact inner_vecdot haxis g v x

/-! ### Traces and diagonals -/

theorem callEntry_trace {axes : Option (ℕ × ℕ)} {p q : ℕ}
    (haxes : pairAxes axes shape.length = (p, q)) :
    N.arithmetic.callEntry (.trace axes) [⟨⟨elem, shape⟩, x⟩] 0 =
      trace p q (shape.getD p 0) x := by
  funext i
  exact congrArg (fun pair : ℕ × ℕ => trace pair.1 pair.2 (shape.getD pair.1 0) x i) haxes

theorem callEntry_diagonal {axes : Option (ℕ × ℕ)} {p q : ℕ}
    (haxes : pairAxes axes shape.length = (p, q)) :
    N.arithmetic.callEntry (.diagonal axes) [⟨⟨elem, shape⟩, x⟩] 0 = diagonal p q x := by
  funext i
  exact congrArg (fun pair : ℕ × ℕ => diagonal pair.1 pair.2 x i) haxes

/-- **The rule of `trace`.** -/
theorem trace_emitsAdjoints {axes : Option (ℕ × ℕ)} {p q : ℕ} (hfloat : elem.isFloat = true)
    (haxes : pairAxes axes shape.length = (p, q)) (hfits : PairFits p q shape.length)
    (hdim : shape.getD q 0 = shape.getD p 0) (hnode : node.ty = ⟨elem, erasePair p q shape⟩)
    (hlhs : exprTy env lhs = .ok ⟨elem, shape⟩)
    (hg : Evaluates N.arithmetic calls values grad ⟨elem, erasePair p q shape⟩ g) :
    EmitsAdjoints N calls values env node (.trace axes) [lhs] [⟨⟨elem, shape⟩, x⟩] grad g := by
  have hprod : (erasePair p q shape).prod = (erasePair p q shape ++ [1, 1]).prod := by simp
  obtain ⟨gx, hemits, hgx⟩ := evaluates_diagonalContribution hfits hdim
    (ElementType.isNumeric_of_isFloat hfloat) lhs (.inr rfl) hprod hg
  refine emitsAdjoints_single ?_ hgx fun v => ?_
  · simp only [reverseCall, callStopsGradient, hnode, hfloat, Bool.not_true]
    show (exprTy env lhs).bind _ = _
    rw [hlhs]
    show (diagonalAxes ⟨elem, shape⟩ axes).bind _ = _
    rw [diagonalAxes_eq haxes hfits, ← hemits]
    rfl
  · rw [hnode, callEntry_trace haxes, inner_trace hfits hdim]
    refine inner_congr (fun j hj => ?_) fun _ _ => rfl
    have hi : InBounds (erasePair p q j) (erasePair p q shape) := inBounds_erasePair hj
    have hread : reshaped (erasePair p q shape) (erasePair p q shape ++ [1, 1]) g
        (erasePair p q j ++ [0, 0]) = g (erasePair p q j) := by
      rw [reshaped, ravel_append_one hi.length_eq, ravel_append_one hi.length_eq, List.append_nil,
        List.append_nil, unravel_ravel hi]
    rw [if_pos rfl, hread]

/-- **The rule of `diagonal`.** -/
theorem diagonal_emitsAdjoints {axes : Option (ℕ × ℕ)} {p q : ℕ} (hfloat : elem.isFloat = true)
    (haxes : pairAxes axes shape.length = (p, q)) (hfits : PairFits p q shape.length)
    (hdim : shape.getD q 0 = shape.getD p 0)
    (hnode : node.ty = ⟨elem, erasePair p q shape ++ [shape.getD p 0]⟩)
    (hlhs : exprTy env lhs = .ok ⟨elem, shape⟩)
    (hg : Evaluates N.arithmetic calls values grad
      ⟨elem, erasePair p q shape ++ [shape.getD p 0]⟩ g) :
    EmitsAdjoints N calls values env node (.diagonal axes) [lhs] [⟨⟨elem, shape⟩, x⟩] grad g := by
  have hprod : (erasePair p q shape ++ [shape.getD p 0]).prod =
      (erasePair p q shape ++ [shape.getD p 0, 1]).prod := by simp
  obtain ⟨gx, hemits, hgx⟩ := evaluates_diagonalContribution hfits hdim
    (ElementType.isNumeric_of_isFloat hfloat) lhs (.inl rfl) hprod hg
  refine emitsAdjoints_single ?_ hgx fun v => ?_
  · simp only [reverseCall, callStopsGradient, hnode, hfloat, Bool.not_true]
    show (exprTy env lhs).bind _ = _
    rw [hlhs]
    show (diagonalAxes ⟨elem, shape⟩ axes).bind _ = _
    rw [diagonalAxes_eq haxes hfits, ← hemits, ← removePairShape_eq hfits]
    rfl
  · rw [hnode, callEntry_diagonal haxes, inner_diagonal hfits hdim]
    refine inner_congr (fun j hj => ?_) fun _ _ => rfl
    have hi : InBounds (erasePair p q j) (erasePair p q shape) := inBounds_erasePair hj
    have hread : reshaped (erasePair p q shape ++ [shape.getD p 0])
        (erasePair p q shape ++ [shape.getD p 0, 1]) g
        (erasePair p q j ++ [if shape.getD p 0 = 1 then 0 else j.getD p 0, 0]) =
          g (erasePair p q j ++ [j.getD p 0]) := by
      have hp := hj.getD_lt hfits.1
      have hdiagonal : (if shape.getD p 0 = 1 then 0 else j.getD p 0) = j.getD p 0 :=
        ite_eq_right_iff.mpr fun hone => by omega
      have hi' := inBounds_append hi (.cons hp .nil)
      have hunit := @unravel_ravel_append_one _ [] _ [] hi' .nil
      rw [List.append_nil, List.append_nil, List.append_assoc, List.append_assoc] at hunit
      rw [hdiagonal]
      exact congrArg g hunit
    rw [hread]

/-! ### Inner products with a scalar -/

/-- Scaling, in the scalar and in the array. -/
theorem inner_scaled (s : List ℕ) (g z : List ℕ → Entry R) (c : Entry R) :
    (∀ v : List ℕ → Entry R, inner s g (fun i => v [] * z i) =
      inner [] (push s (fun i => some (broadcastIndex [] i)) fun i => g i * z i) v) ∧
    ∀ w : List ℕ → Entry R, inner s g (fun i => c * w i) =
      inner s (push s (fun i => some (broadcastIndex s i)) fun i => g i * c) w := by
  constructor
  · intro v
    have hmaps : MapsBox s [] fun i => some (broadcastIndex [] i) := by
      intro i _ j hj
      cases hj
      exact .nil
    rw [inner_comm [], ← inner_pull hmaps]
    refine Finset.sum_congr rfl fun i _ => ?_
    show g i * (v [] * z i) = v [] * (g i * z i)
    ring
  · intro w
    have hpush : ∀ j, InBounds j s →
        push s (fun i => some (broadcastIndex s i)) (fun i => g i * c) j = g j * c := by
      intro j hj
      rw [push_congr (fun _ _ => rfl) (fun i hi => congrArg some (broadcastIndex_self hi))]
      exact push_id _ hj
    refine Finset.sum_congr rfl fun i hi => ?_
    rw [hpush i (mem_box.mp hi)]
    ring

/-- What `inner` emits with a scalar operand. -/
theorem reverseInner_scalar (hscalar : lhsTy.rank = 0 ∨ rhsTy.rank = 0)
    (hlhs : exprTy env lhs = .ok lhsTy) (hrhs : exprTy env rhs = .ok rhsTy)
    {outputTy : TensorType}
    (hgl : unbroadcast (binary .mul grad rhs) outputTy lhsTy = .ok gl)
    (hgr : unbroadcast (binary .mul grad lhs) outputTy rhsTy = .ok gr) :
    reverseInner env [lhs, rhs] outputTy grad = .ok [(lhs, gl), (rhs, gr)] := by
  simp only [reverseInner, except_bind_eq_ok_iff]
  refine ⟨lhsTy, hlhs, rhsTy, hrhs, ?_⟩
  rw [if_pos hscalar]
  exact except_bind_eq_ok_iff.mpr ⟨gl, hgl, except_bind_eq_ok_iff.mpr ⟨gr, hgr, rfl⟩⟩

/-- **The rule of `inner` with a scalar on the left.** -/
theorem scaleRight_emitsAdjoints (hfloat : elem.isFloat = true) (hnode : node.ty = ⟨elem, shape⟩)
    (hlhs : exprTy env lhs = .ok ⟨elem, []⟩) (hrhs : exprTy env rhs = .ok ⟨elem, shape⟩)
    (hx : Evaluates N.arithmetic calls values lhs ⟨elem, []⟩ x)
    (hy : Evaluates N.arithmetic calls values rhs ⟨elem, shape⟩ y)
    (hg : Evaluates N.arithmetic calls values grad ⟨elem, shape⟩ g) :
    EmitsAdjoints N calls values env node .inner [lhs, rhs] [⟨⟨elem, []⟩, x⟩, ⟨⟨elem, shape⟩, y⟩]
      grad g := by
  have hnumeric := ElementType.isNumeric_of_isFloat hfloat
  obtain ⟨gl, hgl⟩ := (@exists_unbroadcast_iff (binary .mul grad rhs) ⟨elem, shape⟩
    ⟨elem, []⟩).mpr ⟨rfl, broadcastsTo_nil _⟩
  obtain ⟨gr, hgr⟩ := (@exists_unbroadcast_iff (binary .mul grad lhs) ⟨elem, shape⟩
    ⟨elem, shape⟩).mpr ⟨rfl, broadcastsTo_refl _⟩
  have hscaled := inner_scaled shape g y (x [])
  refine emitsAdjoints_pair ?_
    (evaluates_unbroadcast hnumeric hgl (hg.mul hnumeric hy))
    (evaluates_unbroadcast hnumeric hgr
      ((hg.binary_left .mul hnumeric (broadcastsTo_nil _) hx).congr fun i _ => rfl))
    (fun v => ?_) fun v => ?_
  · simp only [reverseCall, callStopsGradient, hnode, hfloat, Bool.not_true]
    exact reverseInner_scalar (.inl rfl) hlhs hrhs hgl hgr
  · rw [hnode]
    exact hscaled.1 v
  · rw [hnode]
    exact hscaled.2 v

/-- The rule of `inner` with a scalar on the right. -/
theorem scaleLeft_emitsAdjoints (hfloat : elem.isFloat = true) (hshape : shape ≠ [])
    (hnode : node.ty = ⟨elem, shape⟩)
    (hlhs : exprTy env lhs = .ok ⟨elem, shape⟩) (hrhs : exprTy env rhs = .ok ⟨elem, []⟩)
    (hx : Evaluates N.arithmetic calls values lhs ⟨elem, shape⟩ x)
    (hy : Evaluates N.arithmetic calls values rhs ⟨elem, []⟩ y)
    (hg : Evaluates N.arithmetic calls values grad ⟨elem, shape⟩ g) :
    EmitsAdjoints N calls values env node .inner [lhs, rhs] [⟨⟨elem, shape⟩, x⟩, ⟨⟨elem, []⟩, y⟩]
      grad g := by
  have hnumeric := ElementType.isNumeric_of_isFloat hfloat
  obtain ⟨gl, hgl⟩ := (@exists_unbroadcast_iff (binary .mul grad rhs) ⟨elem, shape⟩
    ⟨elem, shape⟩).mpr ⟨rfl, broadcastsTo_refl _⟩
  obtain ⟨gr, hgr⟩ := (@exists_unbroadcast_iff (binary .mul grad lhs) ⟨elem, shape⟩
    ⟨elem, []⟩).mpr ⟨rfl, broadcastsTo_nil _⟩
  have hscaled := inner_scaled shape g x (y [])
  have hproduct : ∀ u w : List ℕ → Entry R,
      innerProduct shape [] u w = fun i => w [] * u i := by
    intro u w
    funext i
    rw [innerProduct, if_neg hshape, if_pos rfl, mul_comm]
  refine emitsAdjoints_pair ?_
    (evaluates_unbroadcast hnumeric hgl
      ((hg.binary_left .mul hnumeric (broadcastsTo_nil _) hy).congr fun i _ => rfl))
    (evaluates_unbroadcast hnumeric hgr (hg.mul hnumeric hx)) (fun v => ?_) fun v => ?_
  · simp only [reverseCall, callStopsGradient, hnode, hfloat, Bool.not_true]
    exact reverseInner_scalar (.inr rfl) hlhs hrhs hgl hgr
  · rw [hnode]
    show inner shape g (innerProduct shape [] v y) = _
    rw [hproduct]
    exact hscaled.2 v
  · rw [hnode]
    show inner shape g (innerProduct shape [] x v) = _
    rw [hproduct]
    exact hscaled.1 v

end Exactness

/-! ## Flattened operands -/

section Flattened

variable {R : Type u} [CommRing R] {A : Arithmetic R} {calls : Calls (Tensor R)}
  {values : Env (Tensor R)} {env : String → Option TensorType} {e lhs rhs grad : Expr}
  {elem : ElementType} {m n k : ℕ} {p q : List ℕ} {x y g : List ℕ → R}

theorem unravel_pair (m n position : ℕ) :
    unravel [m, n] position = [position / n, position % n] := by
  simp [unravel]

theorem ravel_pair (m n r c : ℕ) : ravel [m, n] [r, c] = r * n + c := by
  simp [ravel]

/-- The number of entries, with the leading axes multiplied up first. -/
theorem usizeProduct_append (p q : List ℕ) :
    usizeProduct (p ++ q) = (usizeProduct p * usizeProduct q) % 2 ^ 64 := by
  rw [usizeProduct_eq, usizeProduct_eq, usizeProduct_eq, List.prod_append, Nat.mul_mod]

theorem usizeProduct_pair (m n : ℕ) : usizeProduct [m, n] = m * n % 2 ^ 64 := by
  rw [usizeProduct_eq, List.prod_pair]

theorem usizeProduct_matrix (p : List ℕ) (n : ℕ) :
    usizeProduct (p ++ [n]) = usizeProduct [usizeProduct p, n] := by
  rw [usizeProduct_append, usizeProduct_pair, usizeProduct_eq [n], List.prod_singleton,
    Nat.mul_mod_mod]

theorem usizeProduct_rows (p q : List ℕ) :
    usizeProduct (p ++ q) = usizeProduct [usizeProduct p, usizeProduct q] := by
  rw [usizeProduct_append, usizeProduct_pair]

/-! ### Evaluation at every position -/

/-- A reshape, also where the number of entries wraps. -/
theorem evalTensor_reshape {shape target : List ℕ} (hcount : usizeProduct shape = usizeProduct target)
    (h : evalTensor A.interp calls values e = some ⟨⟨elem, shape⟩, x⟩) :
    evalTensor A.interp calls values (call (.reshape ⟨elem, target⟩) [e]) =
      some ⟨⟨elem, target⟩, reshaped shape target x⟩ := by
  have htype : inferCallResults (.reshape ⟨elem, target⟩) [⟨elem, shape⟩] =
      .ok [⟨elem, target⟩] := by
    simp only [inferCallResults, validateReshape, except_bind_eq_ok_iff, expectUnary_eq_ok_iff,
      except_pure_eq_ok_iff, failIf_eq_ok_iff, exists_const, bne_eq_false_iff_eq, elementCount]
    exact ⟨_, rfl, ⟨rfl, hcount⟩, trivial⟩
  exact @evalTensor_call_unary R _ A calls values _ ⟨elem, target⟩ e ⟨⟨elem, shape⟩, x⟩ rfl htype h

/-- A transposed matrix. -/
theorem evalTensor_transpose
    (h : evalTensor A.interp calls values e = some ⟨⟨elem, [m, n]⟩, x⟩) :
    evalTensor A.interp calls values (call (.transpose []) [e]) =
      some ⟨⟨elem, [n, m]⟩, fun i => x [i.getD 1 0, i.getD 0 0]⟩ := by
  have htyped := @MovementTyped.transpose elem [m, n] [] (List.Perm.swap 0 1 [])
  have htype : inferCallResults (.transpose []) [⟨elem, [m, n]⟩] = .ok [⟨elem, [n, m]⟩] :=
    inferCallResults_of_movementTyped htyped trivial
  exact @evalTensor_call_unary R _ A calls values _ ⟨elem, [n, m]⟩ e ⟨⟨elem, [m, n]⟩, x⟩ rfl htype h

/-- A product of matrices. -/
theorem evalTensor_matmul (helem : elem.isNumeric = true)
    (hl : evalTensor A.interp calls values lhs = some ⟨⟨elem, [m, n]⟩, x⟩)
    (hr : evalTensor A.interp calls values rhs = some ⟨⟨elem, [n, k]⟩, y⟩) :
    evalTensor A.interp calls values (call .matmul [lhs, rhs]) =
      some ⟨⟨elem, [m, k]⟩, matmul [m, n] [n, k] x y⟩ := by
  have htypes := @matmulTypes_append elem [] [] [] m n k helem (by decide) (by decide) rfl
  have htype : inferCallResults .matmul [⟨elem, [m, n]⟩, ⟨elem, [n, k]⟩] = .ok [⟨elem, [m, k]⟩] := by
    have hok : matmulResultType ⟨elem, [m, n]⟩ ⟨elem, [n, k]⟩ = .ok ⟨elem, [m, k]⟩ :=
      matmulResultType_eq_ok_iff.mpr ⟨[], htypes⟩
    show (matmulResultType ⟨elem, [m, n]⟩ ⟨elem, [n, k]⟩).bind _ = _
    rw [hok]
    rfl
  exact @evalTensor_call_binary R _ A calls values .matmul ⟨elem, [m, k]⟩ lhs rhs
    ⟨⟨elem, [m, n]⟩, x⟩ ⟨⟨elem, [n, k]⟩, y⟩ rfl htype hl hr

/-- The gradient of an inner product as a matrix. -/
def gradMatrix (p q : List ℕ) (g : List ℕ → R) : List ℕ → R :=
  if p ++ q = [usizeProduct p, usizeProduct q] then g
  else reshaped (p ++ q) [usizeProduct p, usizeProduct q] g

omit [CommRing R] in
theorem gradMatrix_entry (g : List ℕ → R) (r : ℕ) {c : ℕ} (hc : c < usizeProduct q) :
    gradMatrix p q g [r, c] = g (unravel (p ++ q) (r * usizeProduct q + c)) := by
  unfold gradMatrix
  split_ifs with heq
  · rw [heq, unravel_pair, Nat.mul_comm, Nat.mul_add_div (by omega), Nat.div_eq_of_lt hc,
      Nat.mul_add_mod, Nat.mod_eq_of_lt hc, Nat.add_zero]
  · rw [reshaped, ravel_pair]

theorem evalTensor_gradMatrix
    (h : evalTensor A.interp calls values grad = some ⟨⟨elem, p ++ q⟩, g⟩) :
    evalTensor A.interp calls values (reshapeIfNeeded grad ⟨elem, p ++ q⟩
        ⟨elem, [usizeProduct p, usizeProduct q]⟩) =
      some ⟨⟨elem, [usizeProduct p, usizeProduct q]⟩, gradMatrix p q g⟩ := by
  unfold reshapeIfNeeded gradMatrix
  by_cases heq : p ++ q = [usizeProduct p, usizeProduct q]
  · rw [if_pos (by rw [heq]), if_pos heq, h, heq]
  · rw [if_neg fun hty => heq (congrArg TensorType.shape hty), if_neg heq]
    exact evalTensor_reshape (usizeProduct_rows p q) h

/-- What the rule of `inner` adds up for the left operand. -/
def innerGradLhs (p q : List ℕ) (k : ℕ) (g y : List ℕ → R) (j : List ℕ) : R :=
  ∑ c ∈ Finset.range (usizeProduct q),
    gradMatrix p q g [ravel (p ++ [k]) j / k, c] *
      y (unravel (q ++ [k]) (c * k + ravel (p ++ [k]) j % k))

/-- What the rule of `inner` adds up for the right operand. -/
def innerGradRhs (p q : List ℕ) (k : ℕ) (g x : List ℕ → R) (j : List ℕ) : R :=
  ∑ r ∈ Finset.range (usizeProduct p),
    gradMatrix p q g [r, ravel (q ++ [k]) j / k] *
      x (unravel (p ++ [k]) (r * k + ravel (q ++ [k]) j % k))

/-- **What the rule of `inner` emits**, whatever the dimensions. -/
theorem exists_innerGrads (helem : elem.isNumeric = true)
    (hlhs : exprTy env lhs = .ok ⟨elem, p ++ [k]⟩) (hrhs : exprTy env rhs = .ok ⟨elem, q ++ [k]⟩)
    (hx : evalTensor A.interp calls values lhs = some ⟨⟨elem, p ++ [k]⟩, x⟩)
    (hy : evalTensor A.interp calls values rhs = some ⟨⟨elem, q ++ [k]⟩, y⟩)
    (hg : evalTensor A.interp calls values grad = some ⟨⟨elem, p ++ q⟩, g⟩) :
    ∃ gl gr, reverseInner env [lhs, rhs] ⟨elem, p ++ q⟩ grad = .ok [(lhs, gl), (rhs, gr)] ∧
      evalTensor A.interp calls values gl =
        some ⟨⟨elem, p ++ [k]⟩, innerGradLhs p q k g y⟩ ∧
      evalTensor A.interp calls values gr =
        some ⟨⟨elem, q ++ [k]⟩, innerGradRhs p q k g x⟩ := by
  have hgrad := evalTensor_gradMatrix hg
  have hxm := evalTensor_reshape (usizeProduct_matrix p k) hx
  have hym := evalTensor_reshape (usizeProduct_matrix q k) hy
  have hl := evalTensor_reshape (usizeProduct_matrix p k).symm
    (evalTensor_matmul helem hgrad hym)
  have hr := evalTensor_reshape (usizeProduct_matrix q k).symm
    (evalTensor_matmul helem (evalTensor_transpose hgrad) hxm)
  refine ⟨_, _, ?_, hl.trans ?_, hr.trans ?_⟩
  · have hlast : ∀ s : List ℕ, (s ++ [k]).take ((s ++ [k]).length - 1) = s ∧
        (s ++ [k]).getD ((s ++ [k]).length - 1) 0 = k := by
      intro s
      rw [List.length_append, List.length_singleton, Nat.add_sub_cancel, List.take_left' rfl,
        List.getD_append_right _ _ _ _ le_rfl, Nat.sub_self]
      exact ⟨rfl, rfl⟩
    simp only [reverseInner, except_bind_eq_ok_iff]
    refine ⟨_, hlhs, _, hrhs, ?_⟩
    rw [if_neg (by simp [TensorType.rank])]
    simp only [TensorType.rank, TensorType.dim, (hlast _).1, (hlast _).2]
    rfl
  · refine congrArg some (congrArg (Tensor.mk _) (funext fun j => ?_))
    rw [reshaped, unravel_pair]
    refine Finset.sum_congr rfl fun c _ => ?_
    show gradMatrix p q g _ * reshaped (q ++ [k]) [usizeProduct q, k] y [c, _] = _
    rw [reshaped, ravel_pair]
    rfl
  · refine congrArg some (congrArg (Tensor.mk _) (funext fun j => ?_))
    rw [reshaped, unravel_pair]
    refine Finset.sum_congr rfl fun c _ => ?_
    show gradMatrix p q g _ * reshaped (p ++ [k]) [usizeProduct p, k] x [c, _] = _
    rw [reshaped, ravel_pair]
    rfl

/-- What the rule of `outer` adds up for the left operand. -/
def outerGradLhs (l r : List ℕ) (g y : List ℕ → R) (j : List ℕ) : R :=
  ∑ c ∈ Finset.range (usizeProduct r), g [ravel l j, c] * y (unravel r c)

/-- What the rule of `outer` adds up for the right operand. -/
def outerGradRhs (l r : List ℕ) (g x : List ℕ → R) (j : List ℕ) : R :=
  ∑ i ∈ Finset.range (usizeProduct l),
    x (unravel l (ravel r j / usizeProduct r * usizeProduct l + i)) *
      g [i, ravel r j % usizeProduct r]

/-- **What the rule of `outer` emits**, whatever the dimensions. -/
theorem exists_outerGrads (helem : elem.isNumeric = true)
    (hlhs : exprTy env lhs = .ok ⟨elem, p⟩) (hrhs : exprTy env rhs = .ok ⟨elem, q⟩)
    (hx : evalTensor A.interp calls values lhs = some ⟨⟨elem, p⟩, x⟩)
    (hy : evalTensor A.interp calls values rhs = some ⟨⟨elem, q⟩, y⟩)
    (hg : evalTensor A.interp calls values grad =
      some ⟨⟨elem, [usizeProduct p, usizeProduct q]⟩, g⟩) :
    ∃ gl gr, reverseOuter env [lhs, rhs] ⟨elem, [usizeProduct p, usizeProduct q]⟩ grad =
        .ok [(lhs, gl), (rhs, gr)] ∧
      evalTensor A.interp calls values gl =
        some ⟨⟨elem, p⟩, outerGradLhs p q g y⟩ ∧
      evalTensor A.interp calls values gr =
        some ⟨⟨elem, q⟩, outerGradRhs p q g x⟩ := by
  have hcol : ∀ s : List ℕ, usizeProduct s = usizeProduct [usizeProduct s, 1] := by
    intro s
    rw [usizeProduct_pair, Nat.mul_one, usizeProduct_eq, Nat.mod_mod]
  have hrow : ∀ s : List ℕ, usizeProduct s = usizeProduct [1, usizeProduct s] := by
    intro s
    rw [usizeProduct_pair, Nat.one_mul, usizeProduct_eq, Nat.mod_mod]
  have hl := evalTensor_reshape (hcol p).symm
    (evalTensor_matmul helem hg (evalTensor_reshape (hcol q) hy))
  have hr := evalTensor_reshape (hrow q).symm
    (evalTensor_matmul helem (evalTensor_reshape (hrow p) hx) hg)
  refine ⟨_, _, ?_, hl.trans ?_, hr.trans ?_⟩
  · simp only [reverseOuter, except_bind_eq_ok_iff]
    have hsame : reshapeIfNeeded grad ⟨elem, [usizeProduct p, usizeProduct q]⟩
        ⟨elem, [usizeProduct p, usizeProduct q]⟩ = grad := if_pos rfl
    refine ⟨_, hlhs, _, hrhs, ?_⟩
    show Except.ok [(lhs, call (.reshape ⟨elem, p⟩) [call .matmul [reshapeIfNeeded grad
        ⟨elem, [usizeProduct p, usizeProduct q]⟩ ⟨elem, [usizeProduct p, usizeProduct q]⟩, _]]),
      (rhs, call (.reshape ⟨elem, q⟩) [call .matmul [_, reshapeIfNeeded grad
        ⟨elem, [usizeProduct p, usizeProduct q]⟩ ⟨elem, [usizeProduct p, usizeProduct q]⟩]])] = _
    rw [hsame]
    rfl
  · refine congrArg some (congrArg (Tensor.mk _) (funext fun j => ?_))
    rw [reshaped, unravel_pair, Nat.div_one, Nat.mod_one]
    refine Finset.sum_congr rfl fun c _ => ?_
    show g _ * reshaped q [usizeProduct q, 1] y [c, 0] = _
    rw [reshaped, ravel_pair, Nat.mul_one]
    rfl
  · refine congrArg some (congrArg (Tensor.mk _) (funext fun j => ?_))
    rw [reshaped, unravel_pair]
    refine Finset.sum_congr rfl fun i _ => ?_
    show reshaped p [1, usizeProduct p] x [_, i] * g _ = _
    rw [reshaped, ravel_pair]
    rfl

/-! ### Where the matrices give the adjoints -/

theorem usizeProduct_of_lt {s : List ℕ} (h : s.prod < 2 ^ 64) : usizeProduct s = s.prod := by
  rw [usizeProduct_eq, Nat.mod_eq_of_lt h]

/-- The operands of an inner product whose matrices have the right dimensions: one
has no entries, or the leading axes of both can be counted. -/
def InnerCountsFit (p q : List ℕ) (k : ℕ) : Prop :=
  p.prod * k = 0 ∨ q.prod * k = 0 ∨ p.prod < 2 ^ 64 ∧ q.prod < 2 ^ 64

theorem box_eq_empty {s : List ℕ} (h : s.prod = 0) : box s = ∅ := by
  rw [← Finset.card_eq_zero, card_box, h]

theorem innerGradLhs_eq (hfits : InnerCountsFit p q k) (g y : List ℕ → R) {j : List ℕ}
    (hj : InBounds j (p ++ [k])) :
    innerGradLhs p q k g y j = ∑ c ∈ box q, g (j.dropLast ++ c) * y (c ++ [j.getLastD 0]) := by
  have hcount : usizeProduct q = q.prod := by
    rcases hfits with hp | hq | ⟨-, hq⟩
    · have hempty : box (p ++ [k]) = ∅ := box_eq_empty (by rw [List.prod_append]; simpa using hp)
      exact absurd (mem_box.mpr hj) (by simp [hempty])
    · rcases Nat.mul_eq_zero.mp hq with hq | rfl
      · exact usizeProduct_of_lt (by omega)
      · have hempty : box (p ++ [0]) = ∅ := box_eq_empty (by simp)
        exact absurd (mem_box.mpr hj) (by simp [hempty])
    · exact usizeProduct_of_lt hq
  rw [← sum_flattened_lhs hj, innerGradLhs, hcount]
  refine Finset.sum_congr rfl fun c hc => ?_
  rw [gradMatrix_entry g _ (hcount.symm ▸ Finset.mem_range.mp hc), hcount]

theorem innerGradRhs_eq (hfits : InnerCountsFit p q k) (g x : List ℕ → R) {j : List ℕ}
    (hj : InBounds j (q ++ [k])) :
    innerGradRhs p q k g x j = ∑ r ∈ box p, g (r ++ j.dropLast) * x (r ++ [j.getLastD 0]) := by
  have hnonempty : q.prod * k ≠ 0 := by
    intro hzero
    have hempty : box (q ++ [k]) = ∅ := box_eq_empty (by rw [List.prod_append]; simpa using hzero)
    exact absurd (mem_box.mpr hj) (by simp [hempty])
  rw [← sum_flattened_rhs hj, innerGradRhs]
  rcases hfits with hp | hq | ⟨hp, hq⟩
  · have hzero : p.prod = 0 :=
      (Nat.mul_eq_zero.mp hp).resolve_right fun hk => hnonempty (by rw [hk, Nat.mul_zero])
    rw [usizeProduct_of_lt (by omega), hzero]
    rfl
  · exact absurd hq hnonempty
  · rw [usizeProduct_of_lt hp]
    refine Finset.sum_congr rfl fun r _ => ?_
    have hcolumn : ravel (q ++ [k]) j / k < usizeProduct q := by
      rw [usizeProduct_of_lt hq]
      refine Nat.div_lt_of_lt_mul ?_
      have hlt := ravel_lt hj
      rw [List.prod_append, List.prod_singleton] at hlt
      rwa [Nat.mul_comm]
    rw [gradMatrix_entry g _ hcolumn, usizeProduct_of_lt hq]

/-- The lengths of the operands of an outer product can be counted, or the counted
length of the other one is zero. -/
def OuterCountsFit (p q : List ℕ) : Prop :=
  (p.prod < 2 ^ 64 ∨ usizeProduct q = 0) ∧ (q.prod < 2 ^ 64 ∨ usizeProduct p = 0)

theorem inner_outerGradLhs (hfits : p.prod < 2 ^ 64 ∨ usizeProduct q = 0) (g v y : List ℕ → R) :
    inner [usizeProduct p, usizeProduct q] g (outerProduct p q v y) =
      inner p (outerGradLhs p q g y) v := by
  have hflat : inner p (outerGradLhs p q g y) v = ∑ r ∈ Finset.range p.prod,
      (∑ c ∈ Finset.range (usizeProduct q), g [r, c] * y (unravel q c)) * v (unravel p r) := by
    rw [← sum_box_ravel p]
    refine Finset.sum_congr rfl fun j hj => ?_
    rw [unravel_ravel (mem_box.mp hj)]
    rfl
  rw [hflat, inner_outerProduct]
  rcases hfits with hp | hq
  · rw [usizeProduct_of_lt hp]
    refine Finset.sum_congr rfl fun r _ => ?_
    rw [Finset.sum_mul]
    refine Finset.sum_congr rfl fun c _ => ?_
    ring
  · simp [hq]

theorem inner_outerGradRhs (hfits : q.prod < 2 ^ 64 ∨ usizeProduct p = 0) (g v x : List ℕ → R) :
    inner [usizeProduct p, usizeProduct q] g (outerProduct p q x v) =
      inner q (outerGradRhs p q g x) v := by
  rw [inner_outerProduct, Finset.sum_comm]
  rcases hfits with hq | hp
  · have hflat : inner q (outerGradRhs p q g x) v = ∑ c ∈ Finset.range q.prod,
        (∑ r ∈ Finset.range (usizeProduct p), x (unravel p r) * g [r, c]) * v (unravel q c) := by
      rw [← sum_box_ravel q]
      refine Finset.sum_congr rfl fun j hj => ?_
      have hlt := ravel_lt (mem_box.mp hj)
      rw [unravel_ravel (mem_box.mp hj), outerGradRhs, usizeProduct_of_lt hq, Nat.div_eq_of_lt hlt,
        Nat.mod_eq_of_lt hlt, Nat.zero_mul]
      simp only [Nat.zero_add]
    rw [hflat, usizeProduct_of_lt hq]
    refine Finset.sum_congr rfl fun c _ => ?_
    rw [Finset.sum_mul]
    refine Finset.sum_congr rfl fun r _ => ?_
    ring
  · simp [hp, Arrays.inner, outerGradRhs]

end Flattened

section Exactness

variable {R : Type u} [CommRing R] {N : Numbers R} {calls : Calls (Tensor (Entry R))}
  {values : Env (Tensor (Entry R))} {env : String → Option TensorType} {node : Node}
  {lhs rhs grad : Expr} {x y g : List ℕ → Entry R} {elem : ElementType} {p q : List ℕ} {k : ℕ}

/-- **The rule of `inner` with two arrays**, where the counts fit. -/
theorem inner_emitsAdjoints (hfloat : elem.isFloat = true) (hfits : InnerCountsFit p q k)
    (hnode : node.ty = ⟨elem, p ++ q⟩) (hlhs : exprTy env lhs = .ok ⟨elem, p ++ [k]⟩)
    (hrhs : exprTy env rhs = .ok ⟨elem, q ++ [k]⟩)
    (hx : evalTensor N.arithmetic.interp calls values lhs =
      some ⟨⟨elem, p ++ [k]⟩, x⟩)
    (hy : evalTensor N.arithmetic.interp calls values rhs =
      some ⟨⟨elem, q ++ [k]⟩, y⟩)
    (hg : Evaluates N.arithmetic calls values grad ⟨elem, p ++ q⟩ g) :
    EmitsAdjoints N calls values env node .inner [lhs, rhs]
      [⟨⟨elem, p ++ [k]⟩, x⟩, ⟨⟨elem, q ++ [k]⟩, y⟩] grad g := by
  obtain ⟨⟨ty, h⟩, hgrad, hty, hentry⟩ := hg
  obtain rfl : ty = ⟨elem, p ++ q⟩ := hty
  obtain ⟨gl, gr, hcall, hl, hr⟩ :=
    exists_innerGrads (ElementType.isNumeric_of_isFloat hfloat) hlhs hrhs hx hy hgrad
  refine emitsAdjoints_pair ?_ ⟨_, hl, rfl, fun _ _ => rfl⟩ ⟨_, hr, rfl, fun _ _ => rfl⟩
    (fun v => ?_) fun v => ?_
  · simp only [reverseCall, callStopsGradient, hnode, hfloat, Bool.not_true]
    exact hcall
  · rw [hnode, inner_congr (fun i hi => (hentry i hi).symm) fun _ _ => rfl]
    show inner (p ++ q) h (innerProduct (p ++ [k]) (q ++ [k]) v y) = _
    rw [inner_innerProduct_lhs]
    exact inner_congr (fun j hj => (innerGradLhs_eq hfits h y hj).symm) fun _ _ => rfl
  · rw [hnode, inner_congr (fun i hi => (hentry i hi).symm) fun _ _ => rfl]
    show inner (p ++ q) h (innerProduct (p ++ [k]) (q ++ [k]) x v) = _
    rw [inner_innerProduct_rhs]
    exact inner_congr (fun j hj => (innerGradRhs_eq hfits h x hj).symm) fun _ _ => rfl

/-- **The rule of `outer`**, where the counts fit. -/
theorem outer_emitsAdjoints (hfloat : elem.isFloat = true) (hfits : OuterCountsFit p q)
    (hnode : node.ty = ⟨elem, [usizeProduct p, usizeProduct q]⟩)
    (hlhs : exprTy env lhs = .ok ⟨elem, p⟩) (hrhs : exprTy env rhs = .ok ⟨elem, q⟩)
    (hx : evalTensor N.arithmetic.interp calls values lhs = some ⟨⟨elem, p⟩, x⟩)
    (hy : evalTensor N.arithmetic.interp calls values rhs = some ⟨⟨elem, q⟩, y⟩)
    (hg : Evaluates N.arithmetic calls values grad
      ⟨elem, [usizeProduct p, usizeProduct q]⟩ g) :
    EmitsAdjoints N calls values env node .outer [lhs, rhs] [⟨⟨elem, p⟩, x⟩, ⟨⟨elem, q⟩, y⟩]
      grad g := by
  obtain ⟨⟨ty, h⟩, hgrad, hty, hentry⟩ := hg
  obtain rfl : ty = ⟨elem, [usizeProduct p, usizeProduct q]⟩ := hty
  obtain ⟨gl, gr, hcall, hl, hr⟩ :=
    exists_outerGrads (ElementType.isNumeric_of_isFloat hfloat) hlhs hrhs hx hy hgrad
  refine emitsAdjoints_pair ?_ ⟨_, hl, rfl, fun _ _ => rfl⟩ ⟨_, hr, rfl, fun _ _ => rfl⟩
    (fun v => ?_) fun v => ?_
  · simp only [reverseCall, callStopsGradient, hnode, hfloat, Bool.not_true]
    exact hcall
  · rw [hnode, inner_congr (fun i hi => (hentry i hi).symm) fun _ _ => rfl]
    exact inner_outerGradLhs hfits.1 h v y
  · rw [hnode, inner_congr (fun i hi => (hentry i hi).symm) fun _ _ => rfl]
    exact inner_outerGradRhs hfits.2 h v x

end Exactness

/-! ## The rules -/

/-- The rule of a contraction emits the adjoint in every operand, over every
commutative ring. -/
def ContractionGradientExact (op : CallOp) (tys : List TensorType) (ty : TensorType) : Prop :=
  ∀ (R : Type u) [CommRing R] (N : Numbers R) (env : String → Option TensorType) (node : Node)
    (args : List Expr), node.ty = ty → args.map (exprTy env) = tys.map .ok →
    ∀ (calls : Calls (Tensor (Entry R))) (values : Env (Tensor (Entry R)))
      (operands : List (Tensor (Entry R))) (grad : Expr) (g : List ℕ → Entry R),
      args.map (evalTensor N.arithmetic.interp calls values) = operands.map some →
      operands.map (·.ty) = tys → Evaluates N.arithmetic calls values grad ty g →
      EmitsAdjoints N calls values env node op args operands grad g

/-- No count that the rule multiplies up wraps, or nothing depends on it. -/
def ContractionCountsFit : CallOp → List TensorType → Prop
  | .inner, [lhs, rhs] => lhs.shape = [] ∨ rhs.shape = [] ∨
      InnerCountsFit lhs.shape.dropLast rhs.shape.dropLast (lhs.shape.getLastD 0)
  | .outer, [lhs, rhs] => OuterCountsFit lhs.shape rhs.shape
  | _, _ => True

theorem exists_single_of_map {α β : Type*} {f : α → β} {l : List α} {b : β} (h : l.map f = [b]) :
    ∃ a, l = [a] ∧ f a = b := by
  obtain ⟨a, rfl, ha⟩ := List.map_eq_singleton_iff.mp h
  exact ⟨a, rfl, ha⟩

theorem exists_pair_of_map {α β : Type*} {f : α → β} {l : List α} {b b' : β}
    (h : l.map f = [b, b']) : ∃ a a', l = [a, a'] ∧ f a = b ∧ f a' = b' := by
  obtain ⟨a, rest, rfl, ha, hrest⟩ := List.map_eq_cons_iff.mp h
  obtain ⟨a', rfl, ha'⟩ := exists_single_of_map hrest
  exact ⟨a, a', rfl, ha, ha'⟩

/-- **The rules emit the adjoints where the counts fit.** -/
theorem contractionGradientExact_of_countsFit {op : CallOp} {tys : List TensorType}
    {ty : TensorType} (htyped : ContractionTyped op tys ty) (hfloat : ty.elem.isFloat = true)
    (hfits : ContractionCountsFit op tys) : ContractionGradientExact.{u} op tys ty := by
  intro R _ N env node args hnode hargs calls values operands grad g hoperands htys hg
  have hpair : ∀ {lhsTy rhsTy : TensorType}, tys = [lhsTy, rhsTy] →
      ∃ lhs rhs, ∃ x y : List ℕ → Entry R, args = [lhs, rhs] ∧
        operands = [⟨lhsTy, x⟩, ⟨rhsTy, y⟩] ∧ exprTy env lhs = .ok lhsTy ∧
        exprTy env rhs = .ok rhsTy ∧
        evalTensor N.arithmetic.interp calls values lhs = some ⟨lhsTy, x⟩ ∧
        evalTensor N.arithmetic.interp calls values rhs = some ⟨rhsTy, y⟩ := by
    rintro lhsTy rhsTy rfl
    obtain ⟨lhs, rhs, rfl, hlhs, hrhs⟩ := exists_pair_of_map hargs
    obtain ⟨⟨_, x⟩, ⟨_, y⟩, rfl, rfl, rfl⟩ := exists_pair_of_map htys
    obtain ⟨hx, hy⟩ := List.cons_eq_cons.mp hoperands
    exact ⟨lhs, rhs, x, y, rfl, rfl, hlhs, hrhs, hx, List.singleton_inj.mp hy⟩
  have hsingle : ∀ {inputTy : TensorType}, tys = [inputTy] →
      ∃ input, ∃ x : List ℕ → Entry R, args = [input] ∧ operands = [⟨inputTy, x⟩] ∧
        exprTy env input = .ok inputTy := by
    rintro inputTy rfl
    obtain ⟨input, rfl, hinput⟩ := exists_single_of_map hargs
    obtain ⟨⟨_, x⟩, rfl, rfl⟩ := exists_single_of_map htys
    exact ⟨input, x, rfl, rfl, hinput⟩
  cases htyped with
  | dot n _ =>
      obtain ⟨lhs, rhs, x, y, rfl, rfl, hlhs, hrhs, hx, hy⟩ := hpair rfl
      exact dot_emitsAdjoints hfloat hnode ⟨_, hx, rfl, fun _ _ => rfl⟩
        ⟨_, hy, rfl, fun _ _ => rfl⟩ hg
  | vecdot _ haxis =>
      obtain ⟨lhs, rhs, x, y, rfl, rfl, hlhs, hrhs, hx, hy⟩ := hpair rfl
      exact vecdot_emitsAdjoints hfloat haxis hnode hlhs ⟨_, hx, rfl, fun _ _ => rfl⟩
        ⟨_, hy, rfl, fun _ _ => rfl⟩ hg
  | scaleRight shape _ =>
      obtain ⟨lhs, rhs, x, y, rfl, rfl, hlhs, hrhs, hx, hy⟩ := hpair rfl
      exact scaleRight_emitsAdjoints hfloat hnode hlhs hrhs ⟨_, hx, rfl, fun _ _ => rfl⟩
        ⟨_, hy, rfl, fun _ _ => rfl⟩ hg
  | scaleLeft _ hshape =>
      obtain ⟨lhs, rhs, x, y, rfl, rfl, hlhs, hrhs, hx, hy⟩ := hpair rfl
      exact scaleLeft_emitsAdjoints hfloat hshape hnode hlhs hrhs ⟨_, hx, rfl, fun _ _ => rfl⟩
        ⟨_, hy, rfl, fun _ _ => rfl⟩ hg
  | inner p q k _ _ =>
      obtain ⟨lhs, rhs, x, y, rfl, rfl, hlhs, hrhs, hx, hy⟩ := hpair rfl
      have hcounts : InnerCountsFit p q k := by
        rcases hfits with hnil | hnil | hcounts
        · exact absurd hnil (by simp)
        · exact absurd hnil (by simp)
        · simpa only [List.dropLast_concat, List.getLastD_concat] using hcounts
      exact inner_emitsAdjoints hfloat hcounts hnode hlhs hrhs hx hy hg
  | outer p q _ =>
      obtain ⟨lhs, rhs, x, y, rfl, rfl, hlhs, hrhs, hx, hy⟩ := hpair rfl
      exact outer_emitsAdjoints hfloat hfits hnode hlhs hrhs hx hy hg
  | trace _ haxes hpairfits hdim =>
      obtain ⟨input, x, rfl, rfl, hinput⟩ := hsingle rfl
      exact trace_emitsAdjoints hfloat haxes hpairfits hdim hnode hinput hg
  | diagonal haxes hpairfits hdim =>
      obtain ⟨input, x, rfl, rfl, hinput⟩ := hsingle rfl
      exact diagonal_emitsAdjoints hfloat haxes hpairfits hdim hnode hinput hg

/-! ### Tensors of ones -/

/-- Numbers with nothing beyond the ring operations. -/
def plainNumbers (R : Type u) [Zero R] : Numbers R :=
  ⟨fun _ => 0, fun _ _ => 0, fun _ _ => false, fun _ _ => false⟩

section Ones

variable {op : CallOp} {elem : ElementType} {lhsTy rhsTy ty : TensorType} {m n total : ℕ}

/-- Two operands and a gradient of ones. -/
def onesValues (lhsTy rhsTy ty : TensorType) : Env (Tensor (Entry (ULift.{u} ℚ))) :=
  operandValues ⟨lhsTy, fun _ => 1⟩ ⟨rhsTy, fun _ => 1⟩ ⟨ty, fun _ => 1⟩

/-- The evaluation of an expression at ones. -/
abbrev evalOnes (lhsTy rhsTy ty : TensorType) (e : Expr) :
    Option (Tensor (Entry (ULift.{u} ℚ))) :=
  evalTensor (plainNumbers (ULift.{u} ℚ)).arithmetic.interp noCalls
    (onesValues lhsTy rhsTy ty) e

theorem entry_natCast_injective {a b : ℕ} (h : (a : Entry (ULift.{u} ℚ)) = b) : a = b :=
  Nat.cast_injective (congrArg Prod.snd h)

/-- The products of entries, counted from each operand: where the rule is exact, a
constant gradient is the number of products of one entry. -/
theorem total_of_exact (hexact : ContractionGradientExact.{u} op [lhsTy, rhsTy] ty)
    {gl gr : Expr} {a b : List ℕ → Entry (ULift.{u} ℚ)}
    (hcall : reverseCall (pairEnv lhsTy rhsTy) ⟨"z", .call op [.var "x", .var "y"], ty⟩ op
      [.var "x", .var "y"] (.var "g") = .ok [(.var "x", gl), (.var "y", gr)])
    (hl : evalOnes lhsTy rhsTy ty gl = some ⟨lhsTy, a⟩)
    (hr : evalOnes lhsTy rhsTy ty gr = some ⟨rhsTy, b⟩) (ha : ∀ j, a j = m) (hb : ∀ j, b j = n)
    (htotal : inner ty.shape (fun _ => 1) ((plainNumbers (ULift.{u} ℚ)).arithmetic.callEntry op
      [⟨lhsTy, fun _ => 1⟩, ⟨rhsTy, fun _ => 1⟩] 0) = total) :
    total = lhsTy.shape.prod * m ∧ total = rhsTy.shape.prod * n := by
  obtain ⟨grads, hemits, hlen, hadjoint⟩ := hexact (ULift.{u} ℚ) (plainNumbers _)
    (pairEnv lhsTy rhsTy) ⟨"z", .call op [.var "x", .var "y"], ty⟩ [.var "x", .var "y"] rfl rfl
    noCalls (onesValues lhsTy rhsTy ty) [⟨lhsTy, fun _ => 1⟩, ⟨rhsTy, fun _ => 1⟩] (.var "g")
    (fun _ => 1) rfl rfl ⟨_, rfl, rfl, fun _ _ => rfl⟩
  obtain ⟨gl', gr', rfl⟩ := List.length_eq_two.mp hlen
  rw [hcall] at hemits
  obtain ⟨rfl, rfl⟩ : gl = gl' ∧ gr = gr' := by simpa using Except.ok.inj hemits
  have hcount : ∀ (s : List ℕ) (c : List ℕ → Entry (ULift.{u} ℚ)) (count : ℕ),
      (∀ j, InBounds j s → c j = count) →
        inner s c (fun _ => 1) = ((s.prod * count : ℕ) : Entry (ULift.{u} ℚ)) := by
    intro s c count hc
    rw [inner_congr hc fun _ _ => rfl]
    simp [Arrays.inner, card_box]
  constructor
  · obtain ⟨c, hc, hinner⟩ := hadjoint 0 _ _ rfl rfl
    refine entry_natCast_injective.{u} (htotal.symm.trans ((hinner fun _ => 1).trans ?_))
    have hentry : Evaluates (plainNumbers (ULift.{u} ℚ)).arithmetic noCalls
        (onesValues lhsTy rhsTy ty) gl lhsTy a := ⟨_, hl, rfl, fun _ _ => rfl⟩
    exact hcount _ _ _ fun j hj => (hc.entry_eq hentry hj).trans (ha j)
  · obtain ⟨c, hc, hinner⟩ := hadjoint 1 _ _ rfl rfl
    refine entry_natCast_injective.{u} (htotal.symm.trans ((hinner fun _ => 1).trans ?_))
    have hentry : Evaluates (plainNumbers (ULift.{u} ℚ)).arithmetic noCalls
        (onesValues lhsTy rhsTy ty) gr rhsTy b := ⟨_, hr, rfl, fun _ _ => rfl⟩
    exact hcount _ _ _ fun j hj => (hc.entry_eq hentry hj).trans (hb j)

theorem gradMatrix_const {R : Type*} (p q : List ℕ) (c : R) :
    gradMatrix p q (fun _ => c) = fun _ => c := by
  unfold gradMatrix
  split_ifs <;> rfl

/-- Where the rule of `inner` is exact, the counts fit. -/
theorem innerCountsFit_of_exact {p q : List ℕ} {k : ℕ} (hfloat : elem.isFloat = true)
    (hexact : ContractionGradientExact.{u} .inner [⟨elem, p ++ [k]⟩, ⟨elem, q ++ [k]⟩]
      ⟨elem, p ++ q⟩) : InnerCountsFit p q k := by
  obtain ⟨gl, gr, hcall, hl, hr⟩ := @exists_innerGrads (Entry (ULift.{u} ℚ)) _
    (plainNumbers _).arithmetic noCalls
    (onesValues ⟨elem, p ++ [k]⟩ ⟨elem, q ++ [k]⟩ ⟨elem, p ++ q⟩)
    (pairEnv ⟨elem, p ++ [k]⟩ ⟨elem, q ++ [k]⟩) (.var "x") (.var "y") (.var "g") elem k p q _ _ _
    (ElementType.isNumeric_of_isFloat hfloat) rfl rfl rfl rfl rfl
  have htotal : p.prod * (q.prod * k) =
        (⟨elem, p ++ [k]⟩ : TensorType).shape.prod * usizeProduct q ∧
      p.prod * (q.prod * k) = (⟨elem, q ++ [k]⟩ : TensorType).shape.prod * usizeProduct p := by
    refine total_of_exact hexact ?_ hl hr (fun j => ?_) (fun j => ?_) ?_
    · simp only [reverseCall, callStopsGradient, hfloat, Bool.not_true]
      exact hcall
    · simp [innerGradLhs, gradMatrix_const]
    · simp [innerGradRhs, gradMatrix_const]
    · show inner (p ++ q) _ (innerProduct (p ++ [k]) (q ++ [k]) _ _) = _
      rw [inner_innerProduct]
      simp [card_box]
  simp only [List.prod_append, List.prod_singleton] at htotal
  obtain ⟨hq, hp⟩ := htotal
  rw [usizeProduct_eq] at hq hp
  by_cases hpk : p.prod * k = 0
  · exact .inl hpk
  · by_cases hqk : q.prod * k = 0
    · exact .inr (.inl hqk)
    · refine .inr (.inr ⟨?_, ?_⟩)
      · have heq : p.prod = p.prod % 2 ^ 64 :=
          Nat.eq_of_mul_eq_mul_left (Nat.pos_of_ne_zero hqk) (by rw [← hp, Nat.mul_comm])
        rw [heq]
        exact Nat.mod_lt _ (by decide)
      · have heq : q.prod = q.prod % 2 ^ 64 := by
          refine Nat.eq_of_mul_eq_mul_left (Nat.pos_of_ne_zero hpk) ?_
          rw [← hq]
          ring
        rw [heq]
        exact Nat.mod_lt _ (by decide)

/-- Where the rule of `outer` is exact, the counts fit. -/
theorem outerCountsFit_of_exact {p q : List ℕ} (hfloat : elem.isFloat = true)
    (hexact : ContractionGradientExact.{u} .outer [⟨elem, p⟩, ⟨elem, q⟩]
      ⟨elem, [usizeProduct p, usizeProduct q]⟩) : OuterCountsFit p q := by
  obtain ⟨gl, gr, hcall, hl, hr⟩ := @exists_outerGrads (Entry (ULift.{u} ℚ)) _
    (plainNumbers _).arithmetic noCalls
    (onesValues ⟨elem, p⟩ ⟨elem, q⟩ ⟨elem, [usizeProduct p, usizeProduct q]⟩)
    (pairEnv ⟨elem, p⟩ ⟨elem, q⟩) (.var "x") (.var "y") (.var "g") elem p q _ _ _
    (ElementType.isNumeric_of_isFloat hfloat) rfl rfl rfl rfl rfl
  have htotal : usizeProduct p * usizeProduct q =
        (⟨elem, p⟩ : TensorType).shape.prod * usizeProduct q ∧
      usizeProduct p * usizeProduct q =
        (⟨elem, q⟩ : TensorType).shape.prod * usizeProduct p := by
    refine total_of_exact hexact ?_ hl hr (fun j => ?_) (fun j => ?_) ?_
    · simp only [reverseCall, callStopsGradient, hfloat, Bool.not_true]
      exact hcall
    · simp [outerGradLhs]
    · simp [outerGradRhs]
    · show Arrays.inner _ _ (outerProduct p q _ _) = _
      rw [inner_outerProduct]
      simp
  obtain ⟨hp, hq⟩ := htotal
  have hlt : ∀ s : List ℕ, usizeProduct s < 2 ^ 64 := fun s => by
    rw [usizeProduct_eq]
    exact Nat.mod_lt _ (by decide)
  constructor
  · refine or_iff_not_imp_right.mpr fun hne => ?_
    rw [← Nat.eq_of_mul_eq_mul_right (Nat.pos_of_ne_zero hne) hp]
    exact hlt p
  · refine or_iff_not_imp_right.mpr fun hne => ?_
    rw [← Nat.eq_of_mul_eq_mul_right (Nat.pos_of_ne_zero hne) ((Nat.mul_comm _ _).trans hq)]
    exact hlt q

end Ones

/-- **The rules of the contractions emit the exact adjoints precisely where the
counts fit.**  Dot products, traces and diagonals, and inner products with a scalar,
are exact for all operands. -/
theorem contractionGradientExact_iff {op : CallOp} {tys : List TensorType} {ty : TensorType}
    (hop : op.contracts = true) (hok : inferCallResults op tys = .ok [ty])
    (hfloat : ty.elem.isFloat = true) :
    ContractionGradientExact.{u} op tys ty ↔ ContractionCountsFit op tys := by
  obtain ⟨ty', hty, htyped⟩ := contractionTyped_of_inferCallResults hop hok
  obtain rfl := List.singleton_inj.mp hty
  refine ⟨fun hexact => ?_, contractionGradientExact_of_countsFit htyped hfloat⟩
  cases htyped with
  | inner p q k _ _ =>
      refine .inr (.inr ?_)
      simpa only [List.dropLast_concat, List.getLastD_concat] using
        innerCountsFit_of_exact hfloat hexact
  | outer p q _ => exact outerCountsFit_of_exact hfloat hexact
  | scaleRight shape _ => exact .inl rfl
  | scaleLeft _ _ => exact .inr (.inl rfl)
  | dot _ _ | vecdot _ _ | trace _ _ _ _ | diagonal _ _ _ => trivial

theorem contractionGradientExact_iff_rows :
    ContractionGradientExact.{0} .inner [⟨.f32, [2, 3]⟩, ⟨.f32, [4, 3]⟩] ⟨.f32, [2, 4]⟩ ↔
      ContractionCountsFit .inner [⟨.f32, [2, 3]⟩, ⟨.f32, [4, 3]⟩] :=
  @contractionGradientExact_iff .inner [⟨.f32, [2, 3]⟩, ⟨.f32, [4, 3]⟩] ⟨.f32, [2, 4]⟩ rfl
    (by decide) rfl

/-- The leading axes of the left operand have 2^64 entries, which is counted as zero. -/
theorem not_contractionGradientExact_wrapped :
    inferCallResults .inner [⟨.f32, [4294967296, 4294967296, 1]⟩, ⟨.f32, [1]⟩] =
        .ok [⟨.f32, [4294967296, 4294967296]⟩] ∧
      ¬ ContractionGradientExact.{0} .inner
        [⟨.f32, [4294967296, 4294967296, 1]⟩, ⟨.f32, [1]⟩]
        ⟨.f32, [4294967296, 4294967296]⟩ := by
  refine ⟨by decide, fun hexact => ?_⟩
  have hfits := @innerCountsFit_of_exact .f32 [4294967296, 4294967296] [] 1 rfl hexact
  revert hfits
  unfold InnerCountsFit
  decide

end Knok.Autograd
