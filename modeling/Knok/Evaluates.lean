import Mathlib
import Knok.Exact
import Knok.Broadcast
import Knok.MatmulRule

/-!
# Rules of evaluation

What an expression evaluates to under exact arithmetic: its type and its entries
in bounds.  There is one rule for each operation that the reverse rules emit, so
that a gradient is evaluated by applying the rules along its syntax.
-/

namespace Knok

open Arrays Control

universe u

variable {R : Type u} [CommRing R]

/-- The expression evaluates to a tensor of the type, with the entries. -/
def Evaluates (A : Arithmetic R) (calls : Calls (Tensor R)) (values : Env (Tensor R)) (e : Expr)
    (ty : TensorType) (x : List ℕ → R) : Prop :=
  ∃ t, evalTensor A.interp calls values e = some t ∧ t.ty = ty ∧
    ∀ i, InBounds i ty.shape → t.entry i = x i

/-! ## Type rules -/

/-- **The type rule of the arithmetic operators**: operands of one numeric
element type broadcast to the result. -/
theorem binaryResultType_eq_ok_iff {lhs rhs ty : TensorType} :
    binaryResultType lhs rhs = .ok ty ↔
      lhs.elem.isNumeric = true ∧ rhs.elem = lhs.elem ∧ ty.elem = lhs.elem ∧
        broadcastShapeSlices lhs.shape rhs.shape = .ok ty.shape := by
  unfold binaryResultType broadcastOr broadcastShape
  simp only [except_bind_eq_ok_iff, failIf_eq_ok_iff, expectNumericElement, exists_const,
    bne_eq_false_iff_eq, Bool.not_eq_false']
  obtain ⟨elem, shape⟩ := ty
  cases hshape : broadcastShapeSlices lhs.shape rhs.shape with
  | error message => simp
  | ok shape' =>
      simp only [Except.ok.injEq, TensorType.mk.injEq]
      constructor
      · rintro ⟨hl, -, helem, rfl, rfl⟩
        exact ⟨hl, helem.symm, rfl, rfl⟩
      · rintro ⟨hl, helem, rfl, rfl⟩
        exact ⟨hl, helem ▸ hl, helem.symm, rfl, rfl⟩

theorem binaryResultType_self {ty : TensorType} (helem : ty.elem.isNumeric = true) :
    binaryResultType ty ty = .ok ty :=
  binaryResultType_eq_ok_iff.mpr
    ⟨helem, rfl, rfl, broadcastShapeSlices_eq_right_iff.mpr (broadcastsTo_refl _)⟩

theorem inferCallResults_sum {ty : TensorType} {axis : ℕ} (helem : ty.elem.isNumeric = true)
    (haxis : axis < ty.shape.length) :
    inferCallResults (.sum (.one axis)) [ty] = .ok [⟨ty.elem, ty.shape.eraseIdx axis⟩] := by
  simp only [inferCallResults, except_bind_eq_ok_iff, expectUnary_eq_ok_iff,
    except_pure_eq_ok_iff, expectNumericElement, failIf_eq_ok_iff, exists_const,
    reductionOutputType, expectAxis_eq_ok_iff, Bool.not_eq_false']
  exact ⟨ty, rfl, helem, _, ⟨haxis, rfl⟩, rfl⟩

theorem inferCallResults_broadcast {elem : ElementType} {shape target : List ℕ}
    (h : BroadcastsTo shape target) :
    inferCallResults (.broadcast ⟨elem, target⟩) [⟨elem, shape⟩] = .ok [⟨elem, target⟩] := by
  have hvalid : validateBroadcast ⟨elem, shape⟩ ⟨elem, target⟩ = .ok () := by
    simp only [validateBroadcast, broadcastShape, except_bind_eq_ok_iff, failIf_eq_ok_iff,
      exists_const, bne_eq_false_iff_eq, broadcastShapeSlices_eq_right_iff.mpr h, and_true]
  simp only [inferCallResults, except_bind_eq_ok_iff, expectUnary_eq_ok_iff]
  exact ⟨_, rfl, (), hvalid, rfl⟩

/-! ## Operations on tensors -/

section Calls

variable {A : Arithmetic R} {calls : Calls (Tensor R)} {values : Env (Tensor R)} {op : CallOp}
  {ty : TensorType}

theorem validateStaticCreationCall_of_not_static (h : op.isStaticCreation = false)
    (args : List Expr) : validateStaticCreationCall op args = .ok () := by
  cases op <;> first | rfl | cases h

theorem isStaticCreation_of_movesData (h : op.movesData = true) : op.isStaticCreation = false := by
  cases op <;> first | rfl | cases h

/-- A call of an operation whose arguments pass their check. -/
theorem evalTensor_call {args : List Expr} {ts : List (Tensor R)}
    (hvalid : validateStaticCreationCall op args = .ok ())
    (htype : inferCallResults op (ts.map (·.ty)) = .ok [ty])
    (h : args.mapM (evalTensor A.interp calls values) = some ts) :
    evalTensor A.interp calls values (.call op args) = some ⟨ty, A.callEntry op ts 0⟩ := by
  have hgraph : ∀ name, op ≠ .graph name := by
    rintro name rfl
    cases htype
  have hcall : A.interp.call op args (some ts) = A.call op ts := by
    simp only [OpSemantics.checkedInterp, hvalid]
    rfl
  rw [evalTensor, evalOutputs_call _ _ _ hgraph, evalArgs_eq_mapM, h, hcall, Arithmetic.call,
    htype]
  rfl

theorem evalTensor_call_unary {e : Expr} {t : Tensor R}
    (hstatic : op.isStaticCreation = false) (htype : inferCallResults op [t.ty] = .ok [ty])
    (h : evalTensor A.interp calls values e = some t) :
    evalTensor A.interp calls values (.call op [e]) =
      some ⟨ty, A.callEntry op [t] 0⟩ :=
  evalTensor_call (validateStaticCreationCall_of_not_static hstatic _) htype (by simp [h])

theorem evalTensor_call_binary {lhs rhs : Expr} {l r : Tensor R}
    (hvalid : validateStaticCreationCall op [lhs, rhs] = .ok ())
    (htype : inferCallResults op [l.ty, r.ty] = .ok [ty])
    (hl : evalTensor A.interp calls values lhs = some l)
    (hr : evalTensor A.interp calls values rhs = some r) :
    evalTensor A.interp calls values (.call op [lhs, rhs]) =
      some ⟨ty, A.callEntry op [l, r] 0⟩ :=
  evalTensor_call hvalid htype (by simp [hl, hr])

end Calls

/-! ## The rules -/

namespace Evaluates

variable {A : Arithmetic R} {calls : Calls (Tensor R)} {values : Env (Tensor R)}
  {e lhs rhs : Expr} {ty lhsTy rhsTy resultTy : TensorType} {x y z : List ℕ → R}

theorem congr (h : Evaluates A calls values e ty x) (hxy : ∀ i, InBounds i ty.shape → x i = y i) :
    Evaluates A calls values e ty y := by
  obtain ⟨t, ht, hty, hentry⟩ := h
  exact ⟨t, ht, hty, fun i hi => (hentry i hi).trans (hxy i hi)⟩

theorem congr_type (h : Evaluates A calls values e ty x) (hty : ty = resultTy) :
    Evaluates A calls values e resultTy x := hty ▸ h

/-- An expression evaluates to one tensor. -/
theorem entry_eq (h : Evaluates A calls values e ty x) (h' : Evaluates A calls values e ty y)
    {i : List ℕ} (hi : InBounds i ty.shape) : x i = y i := by
  obtain ⟨t, ht, -, hentry⟩ := h
  obtain ⟨t', ht', -, hentry'⟩ := h'
  obtain rfl := Option.some.inj (ht.symm.trans ht')
  exact (hentry i hi).symm.trans (hentry' i hi)

/-! ### Operators -/

theorem neg (helem : ty.elem.isNumeric = true) (h : Evaluates A calls values e ty x) :
    Evaluates A calls values (.unary .neg e) ty fun i => -x i := by
  obtain ⟨t, ht, rfl, hentry⟩ := h
  refine ⟨⟨t.ty, fun i => -t.entry i⟩, ?_, rfl, fun i hi => ?_⟩
  · rw [evalTensor_unary, ht]
    exact if_pos helem
  · show -t.entry i = -x i
    rw [hentry i hi]

/-- The result of an operator is broadcast from both operands. -/
theorem binary {op : BinaryOp} (hty : binaryResultType lhsTy rhsTy = .ok ty)
    (hl : Evaluates A calls values lhs lhsTy x) (hr : Evaluates A calls values rhs rhsTy y) :
    Evaluates A calls values (.binary op lhs rhs) ty fun i =>
      A.binaryEntry ty.elem op (x (broadcastIndex lhsTy.shape i)) (y (broadcastIndex rhsTy.shape i)) := by
  obtain ⟨l, hleval, rfl, hlentry⟩ := hl
  obtain ⟨r, hreval, rfl, hrentry⟩ := hr
  obtain ⟨hlhs, hrhs⟩ :=
    broadcastsTo_of_broadcastShapeSlices (binaryResultType_eq_ok_iff.mp hty).2.2.2
  refine ⟨⟨ty, fun i => A.binaryEntry ty.elem op (l.at i) (r.at i)⟩, ?_, rfl, fun i hi => ?_⟩
  · rw [evalTensor_binary, hleval, hreval]
    show A.binary op l r = _
    rw [Arithmetic.binary, hty]
  · show A.binaryEntry ty.elem op (l.at i) (r.at i) = _
    rw [Tensor.at, Tensor.at, hlentry _ (hlhs.inBounds hi), hrentry _ (hrhs.inBounds hi)]

/-- Operands of one type. -/
theorem binary_self {op : BinaryOp} (helem : ty.elem.isNumeric = true)
    (hl : Evaluates A calls values lhs ty x) (hr : Evaluates A calls values rhs ty y) :
    Evaluates A calls values (.binary op lhs rhs) ty fun i =>
      A.binaryEntry ty.elem op (x i) (y i) := by
  refine (hl.binary (binaryResultType_self helem) hr).congr fun i hi => ?_
  rw [broadcastIndex_self hi]

/-- The right operand is broadcast to the left one. -/
theorem binary_left (op : BinaryOp) {elem : ElementType} {shape small : List ℕ}
    (helem : elem.isNumeric = true) (hsmall : BroadcastsTo small shape)
    (hl : Evaluates A calls values lhs ⟨elem, shape⟩ x)
    (hr : Evaluates A calls values rhs ⟨elem, small⟩ y) :
    Evaluates A calls values (.binary op lhs rhs) ⟨elem, shape⟩ fun i =>
      A.binaryEntry elem op (x i) (y (broadcastIndex small i)) := by
  have hjoined := broadcastShapeSlices_comm (broadcastShapeSlices_eq_right_iff.mpr hsmall)
  have hty : binaryResultType ⟨elem, shape⟩ ⟨elem, small⟩ = .ok ⟨elem, shape⟩ :=
    binaryResultType_eq_ok_iff.mpr ⟨helem, rfl, rfl, hjoined⟩
  refine (hl.binary hty hr).congr fun i hi => ?_
  rw [broadcastIndex_self hi]

/-- The left operand is broadcast to the right one. -/
theorem binary_right (op : BinaryOp) {elem : ElementType} {shape small : List ℕ}
    (helem : elem.isNumeric = true) (hsmall : BroadcastsTo small shape)
    (hl : Evaluates A calls values lhs ⟨elem, small⟩ x)
    (hr : Evaluates A calls values rhs ⟨elem, shape⟩ y) :
    Evaluates A calls values (.binary op lhs rhs) ⟨elem, shape⟩ fun i =>
      A.binaryEntry elem op (x (broadcastIndex small i)) (y i) := by
  have hty : binaryResultType ⟨elem, small⟩ ⟨elem, shape⟩ = .ok ⟨elem, shape⟩ :=
    binaryResultType_eq_ok_iff.mpr
      ⟨helem, rfl, rfl, broadcastShapeSlices_eq_right_iff.mpr hsmall⟩
  refine (hl.binary hty hr).congr fun i hi => ?_
  rw [broadcastIndex_self hi]

theorem add (helem : ty.elem.isNumeric = true) (hl : Evaluates A calls values lhs ty x)
    (hr : Evaluates A calls values rhs ty y) :
    Evaluates A calls values (.binary .add lhs rhs) ty fun i => x i + y i :=
  hl.binary_self helem hr

theorem sub (helem : ty.elem.isNumeric = true) (hl : Evaluates A calls values lhs ty x)
    (hr : Evaluates A calls values rhs ty y) :
    Evaluates A calls values (.binary .sub lhs rhs) ty fun i => x i - y i :=
  hl.binary_self helem hr

theorem mul (helem : ty.elem.isNumeric = true) (hl : Evaluates A calls values lhs ty x)
    (hr : Evaluates A calls values rhs ty y) :
    Evaluates A calls values (.binary .mul lhs rhs) ty fun i => x i * y i :=
  hl.binary_self helem hr

theorem div (helem : ty.elem.isNumeric = true) (hl : Evaluates A calls values lhs ty x)
    (hr : Evaluates A calls values rhs ty y) :
    Evaluates A calls values (.binary .div lhs rhs) ty fun i => A.div ty.elem (x i) (y i) :=
  hl.binary_self helem hr

/-! ### Operations -/

/-- An operation of one operand. -/
theorem call_unary {op : CallOp} (htype : inferCallResults op [ty] = .ok [resultTy])
    (hstatic : op.isStaticCreation = false) (h : Evaluates A calls values e ty x)
    (hentry : ∀ t : Tensor R, t.ty = ty → (∀ i, InBounds i ty.shape → t.entry i = x i) →
      ∀ i, InBounds i resultTy.shape → A.callEntry op [t] 0 i = z i) :
    Evaluates A calls values (.call op [e]) resultTy z := by
  obtain ⟨t, ht, rfl, hx⟩ := h
  exact ⟨_, evalTensor_call_unary hstatic htype ht, rfl, hentry t rfl hx⟩

/-- An operation of two operands. -/
theorem call_binary {op : CallOp} (htype : inferCallResults op [lhsTy, rhsTy] = .ok [resultTy])
    (hvalid : validateStaticCreationCall op [lhs, rhs] = .ok ())
    (hl : Evaluates A calls values lhs lhsTy x) (hr : Evaluates A calls values rhs rhsTy y)
    (hentry : ∀ l r : Tensor R, l.ty = lhsTy → r.ty = rhsTy →
      (∀ i, InBounds i lhsTy.shape → l.entry i = x i) →
      (∀ i, InBounds i rhsTy.shape → r.entry i = y i) →
      ∀ i, InBounds i resultTy.shape → A.callEntry op [l, r] 0 i = z i) :
    Evaluates A calls values (.call op [lhs, rhs]) resultTy z := by
  obtain ⟨l, hleval, rfl, hx⟩ := hl
  obtain ⟨r, hreval, rfl, hy⟩ := hr
  exact ⟨_, evalTensor_call_binary hvalid htype hleval hreval, rfl, hentry l r rfl rfl hx hy⟩

/-- An operation of three operands. -/
theorem call_ternary {op : CallOp} {first : Expr} {firstTy : TensorType} {w : List ℕ → R}
    (htype : inferCallResults op [firstTy, lhsTy, rhsTy] = .ok [resultTy])
    (hstatic : op.isStaticCreation = false)
    (hf : Evaluates A calls values first firstTy w) (hl : Evaluates A calls values lhs lhsTy x)
    (hr : Evaluates A calls values rhs rhsTy y)
    (hentry : ∀ f l r : Tensor R, f.ty = firstTy → l.ty = lhsTy → r.ty = rhsTy →
      (∀ i, InBounds i firstTy.shape → f.entry i = w i) →
      (∀ i, InBounds i lhsTy.shape → l.entry i = x i) →
      (∀ i, InBounds i rhsTy.shape → r.entry i = y i) →
      ∀ i, InBounds i resultTy.shape → A.callEntry op [f, l, r] 0 i = z i) :
    Evaluates A calls values (.call op [first, lhs, rhs]) resultTy z := by
  obtain ⟨f, hfeval, rfl, hw⟩ := hf
  obtain ⟨l, hleval, rfl, hx⟩ := hl
  obtain ⟨r, hreval, rfl, hy⟩ := hr
  exact ⟨⟨resultTy, A.callEntry op [f, l, r] 0⟩,
    evalTensor_call (validateStaticCreationCall_of_not_static hstatic _) htype
      (by simp [hfeval, hleval, hreval]), rfl, hentry f l r rfl rfl rfl hw hx hy⟩

theorem const (A : Arithmetic R) (calls : Calls (Tensor R)) (values : Env (Tensor R))
    (text : String) (elem : ElementType) :
    Evaluates A calls values (.const text elem) ⟨elem, []⟩ fun _ => A.literal text elem :=
  ⟨_, evalTensor_const _ _ _ text elem, rfl, fun _ _ => rfl⟩

theorem zerosLike (h : Evaluates A calls values e ty x) :
    Evaluates A calls values (.call .zerosLike [e]) ty fun _ => 0 :=
  h.call_unary rfl rfl fun _ _ _ _ _ => rfl

/-- Broadcasts along the axes that the target repeats. -/
theorem broadcast {elem : ElementType} {shape target : List ℕ}
    (hbroadcast : BroadcastsTo shape target) (h : Evaluates A calls values e ⟨elem, shape⟩ x) :
    Evaluates A calls values (.call (.broadcast ⟨elem, target⟩) [e]) ⟨elem, target⟩
      fun i => x (broadcastIndex shape i) := by
  refine h.call_unary (inferCallResults_broadcast hbroadcast) rfl fun t ht hx i hi => ?_
  show t.entry (broadcastIndex t.ty.shape i) = _
  rw [ht]
  exact hx _ (hbroadcast.inBounds hi)

/-- Sums over one axis. -/
theorem sum (axis : ℕ) (helem : ty.elem.isNumeric = true) (haxis : axis < ty.shape.length)
    (h : Evaluates A calls values e ty x) :
    Evaluates A calls values (.call (.sum (.one axis)) [e]) ⟨ty.elem, ty.shape.eraseIdx axis⟩
      fun i => ∑ k ∈ Finset.range (ty.shape.getD axis 0), x (i.insertIdx axis k) := by
  refine h.call_unary (inferCallResults_sum helem haxis) rfl fun t ht hx i hi => ?_
  show ∑ k ∈ Finset.range (t.ty.dim axis), t.entry (i.insertIdx axis k) = _
  rw [ht]
  refine Finset.sum_congr rfl fun k hk => hx _ ?_
  have hk : k < ty.shape.getD axis 0 := Finset.mem_range.mp hk
  have hle : axis ≤ (ty.shape.eraseIdx axis).length := by
    rw [List.length_eraseIdx, if_pos haxis]
    omega
  have hinsert := InBounds.insertIdx hi hle hk
  rwa [insertIdx_eraseIdx_of_getD haxis] at hinsert

/-- Matrix products. -/
theorem matmul (htype : matmulResultType lhsTy rhsTy = .ok ty)
    (hl : Evaluates A calls values lhs lhsTy x) (hr : Evaluates A calls values rhs rhsTy y) :
    Evaluates A calls values (.call .matmul [lhs, rhs]) ty
      (Arrays.matmul lhsTy.shape rhsTy.shape x y) := by
  obtain ⟨batch, h⟩ := matmulResultType_eq_ok_iff.mp htype
  obtain ⟨hlbatch, hrbatch⟩ := broadcastsTo_of_broadcastShapeSlices h.broadcast
  have hinfer : inferCallResults .matmul [lhsTy, rhsTy] = .ok [ty] := by
    show (matmulResultType lhsTy rhsTy).bind _ = _
    rw [htype]
    rfl
  refine hl.call_binary hinfer rfl hr fun l r hlty hrty hx hy i hi => ?_
  show Arrays.matmul l.ty.shape r.ty.shape l.entry r.entry i = _
  rw [hlty, hrty, Arrays.matmul, Arrays.matmul]
  rw [h.ty_eq] at hi
  refine Finset.sum_congr rfl fun k hk => ?_
  have hk : k < lhsTy.shape.getD (lhsTy.shape.length - 1) 0 := Finset.mem_range.mp hk
  have hk' := hk
  rw [← matmulLhsK_eq, h.contracted, matmulRhsK_eq] at hk'
  rw [hx _ (inBounds_matmulLhsPosition hlbatch h.lhs_rank.1 hi hk),
    hy _ (inBounds_matmulRhsPosition hrbatch h.rhs_rank.1 hi hk')]

/-- Data movement of one operand. -/
theorem movement {op : CallOp} {τ : IndexMap} (htyped : MovementTyped op [ty] [resultTy])
    (htype : inferCallResults op [ty] = .ok [resultTy])
    (hsplit : ∀ axis sections, op ≠ .split axis sections)
    (hlaw : ∀ i, InBounds i resultTy.shape →
      movementLaw op [ty] 0 i = (τ i).map fun j => (0, j))
    (h : Evaluates A calls values e ty x) :
    Evaluates A calls values (.call op [e]) resultTy (pull τ x) := by
  refine h.call_unary htype (isStaticCreation_of_movesData htyped.movesData)
    fun t ht hx i hi => ?_
  rw [A.callEntry_of_movesData htyped.movesData hsplit, List.map_singleton, ht,
    List.map_singleton]
  cases hτ : τ i with
  | none =>
      rw [pull_none hτ, movedArray_of_padding (by rw [hlaw i hi, hτ]; rfl)]
  | some j =>
      have hread : movementLaw op [ty] 0 i = some (0, j) := by rw [hlaw i hi, hτ]; rfl
      obtain ⟨operandTy, hoperand, hj⟩ := inBounds_movementLaw htyped rfl hi hread
      cases hoperand
      rw [pull_some hτ, movedArray_of_law hread]
      exact hx j hj

/-- Data movement that reads an element everywhere. -/
theorem movement_total {op : CallOp} {t : List ℕ → List ℕ}
    (htyped : MovementTyped op [ty] [resultTy])
    (htype : inferCallResults op [ty] = .ok [resultTy])
    (hsplit : ∀ axis sections, op ≠ .split axis sections)
    (hlaw : ∀ i, movementLaw op [ty] 0 i = some (0, t i)) (h : Evaluates A calls values e ty x) :
    Evaluates A calls values (.call op [e]) resultTy fun i => x (t i) :=
  h.movement (τ := fun i => some (t i)) htyped htype hsplit fun i _ => hlaw i

variable {elem : ElementType} {shape size : List ℕ}

theorem slice {starts : List ℕ} (hfits : WindowFits starts size shape) (hdims : UsizeDims shape)
    (h : Evaluates A calls values e ⟨elem, shape⟩ x) :
    Evaluates A calls values (.call (.slice ⟨elem, size⟩ starts) [e]) ⟨elem, size⟩
      fun i => x (shiftBy starts i) := by
  have hsizes : SizesFit (.slice ⟨elem, size⟩ starts) [⟨elem, shape⟩] :=
    fun axis haxis => hdims.window_lt hfits (hfits.2.1 ▸ haxis)
  exact h.movement_total (.slice hfits) (inferCallResults_of_movementTyped (.slice hfits) hsizes)
    (fun _ _ => nofun) fun _ => rfl

theorem pad {lows : List ℕ} (hfits : WindowFits lows size shape) (hdims : UsizeDims shape)
    (h : Evaluates A calls values e ⟨elem, size⟩ x) :
    Evaluates A calls values (.call (.pad ⟨elem, shape⟩ lows) [e]) ⟨elem, shape⟩
      (pull (window lows size) x) := by
  have hsizes : SizesFit (.pad ⟨elem, shape⟩ lows) [⟨elem, size⟩] := by
    intro axis haxis
    rw [Nat.add_comm]
    exact hdims.window_lt hfits haxis
  exact h.movement (.pad hfits) (inferCallResults_of_movementTyped (.pad hfits) hsizes)
    (fun _ _ => nofun) fun _ _ => rfl

theorem reshape (hprod : shape.prod = size.prod) (h : Evaluates A calls values e ⟨elem, shape⟩ x) :
    Evaluates A calls values (.call (.reshape ⟨elem, size⟩) [e]) ⟨elem, size⟩
      fun i => x (unravel shape (ravel size i)) :=
  h.movement_total (.reshape hprod) (inferCallResults_reshape elem hprod) (fun _ _ => nofun)
    fun _ => rfl

/-- Joining two operands along an axis. -/
theorem concat {axis count : ℕ} (haxis : axis < shape.length)
    (hfits : shape.getD axis 0 + count < 2 ^ 64)
    (hl : Evaluates A calls values lhs ⟨elem, shape⟩ x)
    (hr : Evaluates A calls values rhs ⟨elem, shape.set axis count⟩ y) :
    Evaluates A calls values (.call (.concat axis) [lhs, rhs])
      ⟨elem, shape.set axis (shape.getD axis 0 + count)⟩ fun i =>
        if i.getD axis 0 < shape.getD axis 0 then x i
        else y (i.set axis (i.getD axis 0 - shape.getD axis 0)) := by
  have htyped := @MovementTyped.concat elem shape axis count haxis
  have hsizes : SizesFit (.concat axis) [⟨elem, shape⟩, ⟨elem, shape.set axis count⟩] := by
    show shape.getD axis 0 + (shape.set axis count).getD axis 0 < 2 ^ 64
    rwa [getD_set_of_lt haxis, if_pos rfl]
  refine hl.call_binary (inferCallResults_of_movementTyped htyped hsizes) rfl hr
    fun l r hlty hrty hx hy i hi => ?_
  have hmoved := A.callEntry_of_movesData htyped.movesData (fun _ _ => nofun) [l, r] 0 i
  rw [hmoved]
  have hlaw : movementLaw (.concat axis) [l.ty, r.ty] 0 i =
      if i.getD axis 0 < shape.getD axis 0 then some (0, i)
      else some (1, i.set axis (i.getD axis 0 - shape.getD axis 0)) := by
    rw [hlty, hrty]
    rfl
  have hbound : ∀ operand j, movementLaw (.concat axis) [l.ty, r.ty] 0 i = some (operand, j) →
      ∃ ty, [(⟨elem, shape⟩ : TensorType), ⟨elem, shape.set axis count⟩][operand]? = some ty ∧
        InBounds j ty.shape := by
    intro operand j hread
    rw [hlty, hrty] at hread
    exact inBounds_movementLaw htyped rfl hi hread
  rw [List.map_cons, List.map_singleton, List.map_cons, List.map_singleton]
  split_ifs at hlaw ⊢ with hlt
  · obtain ⟨ty, hty, hj⟩ := hbound 0 i hlaw
    cases hty
    rw [movedArray_of_law hlaw]
    exact hx i hj
  · obtain ⟨ty, hty, hj⟩ := hbound 1 _ hlaw
    cases hty
    rw [movedArray_of_law hlaw]
    exact hy _ hj

/-! ### Sums of pieces -/

/-- Pieces added from the left. -/
theorem foldl_add {α : Type*} {piece : α → Expr} {entry : α → List ℕ → R}
    (helem : ty.elem.isNumeric = true) : ∀ {items : List α} {acc : Expr} {x : List ℕ → R},
      (∀ item ∈ items, Evaluates A calls values (piece item) ty (entry item)) →
      Evaluates A calls values acc ty x →
      Evaluates A calls values ((items.map piece).foldl (.binary .add) acc) ty
        fun i => x i + (items.map fun item => entry item i).sum := by
  intro items
  induction items with
  | nil =>
      intro acc x _ hacc
      exact hacc.congr fun i _ => (add_zero _).symm
  | cons item items ih =>
      intro acc x hpieces hacc
      obtain ⟨hpiece, hrest⟩ := List.forall_mem_cons.mp hpieces
      refine (ih hrest (hacc.add helem hpiece)).congr fun i _ => ?_
      rw [List.map_cons, List.sum_cons, add_assoc]

end Evaluates

/-! ## Two operands and a gradient -/

/-- The types of two named operands. -/
def pairEnv (lhs rhs : TensorType) : String → Option TensorType
  | "x" => some lhs
  | "y" => some rhs
  | _ => none

/-- Two named operands and an incoming gradient. -/
def operandValues {R : Type u} (x y g : Tensor R) : Env (Tensor R)
  | "x" => some x
  | "y" => some y
  | "g" => some g
  | _ => none

/-- Two named operands and an incoming gradient, all of them ones. -/
def pairValues (lhs rhs ty : TensorType) : Env (Tensor ℤ)
  | "x" => some ⟨lhs, fun _ => 1⟩
  | "y" => some ⟨rhs, fun _ => 1⟩
  | "g" => some ⟨ty, fun _ => 1⟩
  | _ => none

/-- Integers, with nothing beyond the ring operations. -/
def ringOnly : Arithmetic ℤ := ⟨fun _ _ => 0, fun _ _ _ => 0, fun _ _ _ _ => 0⟩

end Knok
