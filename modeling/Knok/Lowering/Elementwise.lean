import Mathlib
import Knok.BroadcastJoin
import Knok.Evaluates
import Knok.Lowering.Broadcast
import Knok.Lowering.Pieces

/-!
# Lowering elementwise operations

The operands of an elementwise operation are broadcast to their joined shape
first.  `clip` and `where` have three operands and join them in two steps; the
type rules join the same three, `clip` in another order.  Broadcasting being a
partial join, the order makes no difference.

### Design decisions

* **Elements.**  The operation on elements is an argument (`op`, `select`); a
  condition is a value with truth values as its elements.
* **Undefined operands.**  An element computed from one that has not been written
  is unwritten.
-/

namespace Knok.Lowering

open Arrays Control PartialJoin

variable {R : Type}

/-! ## The code -/

/-- The type of the result of a binary operation. -/
def broadcastResultType (lhs rhs : TensorType) : Except Error TensorType := do
  failIf (lhs.elem != rhs.elem) "binary operands have different element types"
  let shape ← broadcastShape lhs.shape rhs.shape
  return ⟨lhs.elem, shape⟩

/-- A value as a scalar, or as a tensor of a type. -/
def coerceToKind (value : Value R) (ty : TensorType) : ValueKind → Except Error (Value R)
  | .scalar => coerceToScalar value
  | .tensor => broadcast value ty

/-- An operation on one element. -/
def Cell.map (op : R → R) (cell : Cell R) : Cell R :=
  match cell.value? with
  | some x => .written (op x)
  | none => .unwritten

/-- An operation on two elements. -/
def Cell.map₂ (op : R → R → R) (lhs rhs : Cell R) : Cell R :=
  match lhs.value?, rhs.value? with
  | some x, some y => .written (op x y)
  | _, _ => .unwritten

/-- An elementwise operation on values of one type and kind. -/
def appendElementwise (op : R → R → R) (lhs rhs : Value R) (ty : TensorType)
    (kind : ValueKind) : Except Error (Value R) := do
  verify (lhs.kind = kind ∧ rhs.kind = kind ∧ lhs.ty = ty ∧ rhs.ty = ty)
    "elementwise operands must have the type of the result"
  match kind with
  | .scalar => return .scalar ty.elem (Cell.map₂ op (lhs.cell []) (rhs.cell []))
  | .tensor => resultTensor ty fun i => Cell.map₂ op (lhs.cell i) (rhs.cell i)

/-- `arith.select`, elementwise. -/
def appendSelect (condition : Value Bool) (trueValue falseValue : Value R) (ty : TensorType) :
    Except Error (Value R) := do
  verify (condition.kind = .tensor ∧ trueValue.kind = .tensor ∧ falseValue.kind = .tensor ∧
    condition.ty = ⟨.bool, ty.shape⟩ ∧ trueValue.ty = ty ∧ falseValue.ty = ty)
    "select operands must have the type of the result"
  resultTensor ty fun i =>
    match (condition.cell i).value? with
    | some true => trueValue.cell i
    | some false => falseValue.cell i
    | none => .unwritten

/-- The kind of an elementwise result. -/
def resultKind (ty : TensorType) (lhs rhs : ValueKind) : ValueKind :=
  if ty.rank = 0 ∧ lhs = .scalar ∧ rhs = .scalar then .scalar else .tensor

/-- `emit_unary`. -/
def emitUnary (op : R → R) (value : Value R) : Except Error (Value R) :=
  .ok { value with cell := fun i => (value.cell i).map op }

/-- `emit_binary`. -/
def emitBinary (op : R → R → R) (lhs rhs : Value R) : Except Error (Value R) := do
  let ty ← broadcastResultType lhs.ty rhs.ty
  let kind := resultKind ty lhs.kind rhs.kind
  let lhs ← coerceToKind lhs ty kind
  let rhs ← coerceToKind rhs ty kind
  appendElementwise op lhs rhs ty kind

/-- `minimum`. -/
def minimum [Min R] (lhs rhs : Value R) : Except Error (Value R) := emitBinary min lhs rhs

/-- `maximum`. -/
def maximum [Max R] (lhs rhs : Value R) : Except Error (Value R) := emitBinary max lhs rhs

/-- `clip`: the upper bound first. -/
def clip [Min R] [Max R] (value low high : Value R) : Except Error (Value R) := do
  let clippedHigh ← minimum value high
  maximum clippedHigh low

/-- The type of the result of `where_select`. -/
def whereSelectType (condition trueValue falseValue : TensorType) : Except Error TensorType := do
  let valueShape ← broadcastShape trueValue.shape falseValue.shape
  let shape ← broadcastShape condition.shape valueShape
  return ⟨trueValue.elem, shape⟩

/-- `where_select`. -/
def whereSelect (condition : Value Bool) (trueValue falseValue : Value R) :
    Except Error (Value R) := do
  let ty ← whereSelectType condition.ty trueValue.ty falseValue.ty
  let condition ← coerceToKind condition ⟨.bool, ty.shape⟩ .tensor
  let trueValue ← coerceToKind trueValue ⟨trueValue.ty.elem, ty.shape⟩ .tensor
  let falseValue ← coerceToKind falseValue ⟨falseValue.ty.elem, ty.shape⟩ .tensor
  appendSelect condition trueValue falseValue ty

/-! ## Elements of the results -/

theorem broadcastResultType_eq_ok_iff {lhs rhs ty : TensorType} :
    broadcastResultType lhs rhs = .ok ty ↔
      rhs.elem = lhs.elem ∧ ty.elem = lhs.elem ∧ broadcastJoin lhs.shape rhs.shape = some ty.shape := by
  obtain ⟨elem, shape⟩ := ty
  simp only [broadcastResultType, except_bind_eq_ok_iff, failIf_eq_ok_iff, bne_eq_false_iff_eq,
    exists_const, broadcastShape_eq_ok_iff, except_pure_eq_ok_iff, broadcastJoin,
    except_toOption_eq_some_iff, TensorType.mk.injEq]
  constructor
  · rintro ⟨helem, shape', hshape, rfl, rfl⟩
    exact ⟨helem.symm, rfl, hshape⟩
  · rintro ⟨helem, rfl, hshape⟩
    exact ⟨helem.symm, shape, hshape, rfl, rfl⟩

theorem emitUnary_lowers {op : R → R} {value : Value R} {x : List ℕ → R} (hx : value.Holds x) :
    Lowers (emitUnary op value) value.ty fun i => op (x i) := by
  refine ⟨_, rfl, rfl, fun i hi => ?_⟩
  show (value.cell i).map op = _
  rw [hx i hi]
  rfl

theorem splat_kind {scalar value : Value R} {ty : TensorType} (h : splat scalar ty = .ok value) :
    value.kind = .tensor := by
  obtain ⟨_, -, hempty⟩ := except_bind_eq_ok_iff.mp h
  obtain ⟨_, -, hfill⟩ := except_bind_eq_ok_iff.mp hempty
  obtain ⟨-, -, hvalue⟩ := except_bind_eq_ok_iff.mp hfill
  obtain ⟨_, rfl⟩ := resultTensor_eq_ok_iff.mp hvalue
  rfl

/-- What has been broadcast is a tensor. -/
theorem broadcast_kind {input value : Value R} {ty : TensorType}
    (h : broadcast input ty = .ok value) : value.kind = .tensor := by
  unfold broadcast at h
  split_ifs at h with hsame
  · cases h
    exact hsame.2
  · exact splat_kind h
  · exact splat_kind h
  · obtain ⟨_, -, hsplat⟩ := except_bind_eq_ok_iff.mp h
    exact splat_kind hsplat
  · obtain ⟨-, -, hrest⟩ := except_bind_eq_ok_iff.mp h
    obtain ⟨_, -, hemit⟩ := except_bind_eq_ok_iff.mp hrest
    obtain ⟨_, -, hbroadcast⟩ := except_bind_eq_ok_iff.mp hemit
    obtain ⟨-, -, hverify⟩ := except_bind_eq_ok_iff.mp hbroadcast
    obtain ⟨-, -, hvalue⟩ := except_bind_eq_ok_iff.mp hverify
    obtain ⟨_, rfl⟩ := resultTensor_eq_ok_iff.mp hvalue
    rfl

/-- **Operands are broadcast to the joined type and combined.** -/
theorem emitBinary_broadcast_lowers {op : R → R → R} {lhs rhs : Value R} {ty : TensorType}
    {x y : List ℕ → R} (htype : broadcastResultType lhs.ty rhs.ty = .ok ty)
    (hlhs : CountsExactly lhs.ty ty) (hrhs : CountsExactly rhs.ty ty) (hx : lhs.Holds x)
    (hy : rhs.Holds y) :
    Lowers (emitBinary op lhs rhs) ty fun i =>
      op (x (broadcastIndex lhs.ty.shape i)) (y (broadcastIndex rhs.ty.shape i)) := by
  obtain ⟨helem, helem', hjoin⟩ := broadcastResultType_eq_ok_iff.mp htype
  obtain ⟨hlto, hrto⟩ :=
    broadcastsTo_of_broadcastShapeSlices (except_toOption_eq_some_iff.mp hjoin)
  have hfit : DimsFit ty.shape := dimsFit_of_broadcastShapeSlices
    (except_toOption_eq_some_iff.mp hjoin) lhs.dims_fit rhs.dims_fit
  unfold emitBinary
  rw [htype]
  simp only [bind, Except.bind]
  cases hkind : resultKind ty lhs.kind rhs.kind with
  | scalar =>
      have hscalar : ty.rank = 0 ∧ lhs.kind = .scalar ∧ rhs.kind = .scalar := by
        by_contra hnot
        rw [resultKind, if_neg hnot] at hkind
        cases hkind
      obtain ⟨hrank, hl, hr⟩ := hscalar
      have hnil : ty.shape = [] := List.eq_nil_of_length_eq_zero hrank
      have hlnil := lhs.shape_of_scalar hl
      have hrnil := rhs.shape_of_scalar hr
      have htys : lhs.ty = ty ∧ rhs.ty = ty := by
        obtain ⟨elem, shape⟩ := ty
        have hlty : lhs.ty = ⟨elem, shape⟩ := by
          rw [show lhs.ty = ⟨lhs.ty.elem, lhs.ty.shape⟩ from rfl, hlnil, ← helem', ← hnil]
        have hrty : rhs.ty = ⟨elem, shape⟩ := by
          rw [show rhs.ty = ⟨rhs.ty.elem, rhs.ty.shape⟩ from rfl, hrnil, helem, ← helem', ← hnil]
        exact ⟨hlty, hrty⟩
      have hcoerced : ∀ {value : Value R}, value.kind = .scalar →
          coerceToKind value ty .scalar = .ok value := by
        intro value hvalue
        rw [coerceToKind, coerceToScalar, hvalue]
      rw [hcoerced hl, hcoerced hr]
      refine ⟨.scalar ty.elem (Cell.map₂ op (lhs.cell []) (rhs.cell [])), ?_, ?_, fun i hi => ?_⟩
      · exact except_bind_eq_ok_iff.mpr ⟨(), verify_of ⟨hl, hr, htys⟩ _, rfl⟩
      · rw [Value.scalar_ty, ← hnil]
      · obtain rfl : i = [] := List.length_eq_zero_iff.mp hi.length_eq
        rw [Value.scalar_cell, hx [] (by rw [hlnil]; exact .nil),
          hy [] (by rw [hrnil]; exact .nil), hlnil, hrnil]
        rfl
  | tensor =>
      obtain ⟨⟨left, hleft, hleftTy, hleftHolds⟩, -⟩ :=
        (broadcastLowersTo_iff lhs.dims_fit helem'.symm hlto).mpr ⟨hfit, hlhs⟩ R lhs x rfl hx
      obtain ⟨⟨right, hright, hrightTy, hrightHolds⟩, -⟩ :=
        (broadcastLowersTo_iff rhs.dims_fit (helem.trans helem'.symm) hrto).mpr ⟨hfit, hrhs⟩ R
          rhs y rfl hy
      simp only [coerceToKind, hleft, hright]
      refine ⟨.tensor ty (fun i => Cell.map₂ op (left.cell i) (right.cell i)) hfit, ?_, rfl,
        fun i hi => ?_⟩
      · exact except_bind_eq_ok_iff.mpr ⟨(),
          verify_of ⟨broadcast_kind hleft, broadcast_kind hright, hleftTy, hrightTy⟩ _,
          resultTensor_of hfit⟩
      · rw [Value.tensor_cell, hleftHolds i (hleftTy ▸ hi), hrightHolds i (hrightTy ▸ hi)]
        rfl

/-- Operands of one type are combined as they are. -/
theorem emitBinary_lowers {op : R → R → R} {lhs rhs : Value R} {ty : TensorType}
    {x y : List ℕ → R} (hlty : lhs.ty = ty) (hrty : rhs.ty = ty) (hx : lhs.Holds x)
    (hy : rhs.Holds y) : Lowers (emitBinary op lhs rhs) ty fun i => op (x i) (y i) := by
  have htype : broadcastResultType lhs.ty rhs.ty = .ok ty := by
    have hshape := broadcastShape_eq_ok_iff.mpr
      (broadcastShapeSlices_eq_right_iff.mpr (broadcastsTo_refl ty.shape))
    simp only [broadcastResultType, except_bind_eq_ok_iff, failIf_eq_ok_iff, bne_eq_false_iff_eq,
      exists_const, except_pure_eq_ok_iff, hlty, hrty]
    exact ⟨trivial, ty.shape, hshape, rfl⟩
  refine (emitBinary_broadcast_lowers htype (.inl hlty) (.inl hrty) hx hy).congr fun i hi => ?_
  rw [hlty, hrty, broadcastIndex_self hi]

/-! ## Types of the results -/

theorem appendElementwise_ty {op : R → R → R} {lhs rhs value : Value R} {ty : TensorType}
    {kind : ValueKind}
    (hkind : kind = .scalar → ty.shape = [])
    (h : appendElementwise op lhs rhs ty kind = .ok value) : value.ty = ty := by
  obtain ⟨-, -, hvalue⟩ := except_bind_eq_ok_iff.mp h
  cases kind with
  | scalar =>
      rw [← except_pure_eq_ok_iff.mp hvalue, Value.scalar_ty, ← hkind rfl]
  | tensor =>
      obtain ⟨hfit, rfl⟩ := resultTensor_eq_ok_iff.mp hvalue
      exact Value.tensor_ty ty _ hfit

/-- An elementwise result has the joined type. -/
theorem emitBinary_ty {op : R → R → R} {lhs rhs value : Value R}
    (h : emitBinary op lhs rhs = .ok value) : broadcastResultType lhs.ty rhs.ty = .ok value.ty := by
  obtain ⟨ty, hty, hrest⟩ := except_bind_eq_ok_iff.mp h
  obtain ⟨lhs', -, hrest⟩ := except_bind_eq_ok_iff.mp hrest
  obtain ⟨rhs', -, hvalue⟩ := except_bind_eq_ok_iff.mp hrest
  have hkind : resultKind ty lhs.kind rhs.kind = .scalar → ty.shape = [] := by
    unfold resultKind
    split_ifs with hscalar
    · exact fun _ => List.eq_nil_of_length_eq_zero hscalar.1
    · exact nofun
  rw [appendElementwise_ty hkind hvalue]
  exact hty

/-- The type of a clipped value, in the order of the lowering. -/
def clipResultType (value low high : TensorType) : Except Error TensorType := do
  let clippedHigh ← broadcastResultType value high
  broadcastResultType clippedHigh low

theorem clip_ty [Min R] [Max R] {value low high result : Value R}
    (h : clip value low high = .ok result) :
    clipResultType value.ty low.ty high.ty = .ok result.ty := by
  obtain ⟨clippedHigh, hhigh, hlow⟩ := except_bind_eq_ok_iff.mp h
  exact except_bind_eq_ok_iff.mpr ⟨_, emitBinary_ty hhigh, emitBinary_ty hlow⟩

theorem whereSelect_ty {condition : Value Bool} {trueValue falseValue result : Value R}
    (h : whereSelect condition trueValue falseValue = .ok result) :
    whereSelectType condition.ty trueValue.ty falseValue.ty = .ok result.ty := by
  obtain ⟨ty, hty, hrest⟩ := except_bind_eq_ok_iff.mp h
  obtain ⟨_, -, hrest⟩ := except_bind_eq_ok_iff.mp hrest
  obtain ⟨_, -, hrest⟩ := except_bind_eq_ok_iff.mp hrest
  obtain ⟨_, -, hrest⟩ := except_bind_eq_ok_iff.mp hrest
  obtain ⟨-, -, hresult⟩ := except_bind_eq_ok_iff.mp hrest
  obtain ⟨hfit, rfl⟩ := resultTensor_eq_ok_iff.mp hresult
  exact hty

/-! ## The laws of broadcasting -/

theorem whereSelectType_eq_ok_iff {condition trueValue falseValue ty : TensorType} :
    whereSelectType condition trueValue falseValue = .ok ty ↔
      ty.elem = trueValue.elem ∧
        ((broadcastJoin trueValue.shape falseValue.shape).bind fun values =>
          broadcastJoin condition.shape values) = some ty.shape := by
  obtain ⟨elem, shape⟩ := ty
  simp only [whereSelectType, except_bind_eq_ok_iff, broadcastShape_eq_ok_iff,
    except_pure_eq_ok_iff, broadcastJoin, Option.bind_eq_some_iff, except_toOption_eq_some_iff,
    TensorType.mk.injEq]
  constructor
  · rintro ⟨values, hvalues, shape', hshape, rfl, rfl⟩
    exact ⟨rfl, values, hvalues, hshape⟩
  · rintro ⟨rfl, values, hvalues, hshape⟩
    exact ⟨values, hvalues, shape, hshape, rfl, rfl⟩

theorem clipResultType_eq_ok_iff {value low high ty : TensorType} :
    clipResultType value low high = .ok ty ↔
      high.elem = value.elem ∧ low.elem = value.elem ∧ ty.elem = value.elem ∧
        ((broadcastJoin value.shape high.shape).bind fun clipped =>
          broadcastJoin clipped low.shape) = some ty.shape := by
  simp only [clipResultType, except_bind_eq_ok_iff, broadcastResultType_eq_ok_iff,
    Option.bind_eq_some_iff]
  constructor
  · rintro ⟨⟨elem, clipped⟩, ⟨hhigh, rfl, hclipped⟩, hlow, hty, hshape⟩
    exact ⟨hhigh, hlow, hty, clipped, hclipped, hshape⟩
  · rintro ⟨hhigh, hlow, hty, clipped, hclipped, hshape⟩
    exact ⟨⟨value.elem, clipped⟩, ⟨hhigh, rfl, hclipped⟩, hlow, hty, hshape⟩

/-- The type rule of `clip` joins the lower bound first. -/
theorem inferCallResults_clip_iff {value low high ty : TensorType} :
    inferCallResults .clip [value, low, high] = .ok [ty] ↔
      value.elem.isNumeric = true ∧ high.elem = value.elem ∧ low.elem = value.elem ∧
        ty.elem = value.elem ∧
        ((broadcastJoin value.shape low.shape).bind fun clipped =>
          broadcastJoin clipped high.shape) = some ty.shape := by
  simp only [inferCallResults, except_bind_eq_ok_iff, expectTernary_eq_ok_iff, Prod.exists,
    except_pure_eq_ok_iff, expectNumericElement, failIf_eq_ok_iff, exists_const,
    binaryResultType_eq_ok_iff, Bool.not_eq_false', broadcastJoin, Option.bind_eq_some_iff,
    except_toOption_eq_some_iff, List.cons.injEq, and_true]
  constructor
  · rintro ⟨_, _, _, ⟨rfl, rfl, rfl⟩, hv, hl, hh, ⟨elem, clipped⟩, ⟨-, hlow, rfl, hclipped⟩, ty',
      ⟨-, hhigh, hty, hshape⟩, rfl⟩
    exact ⟨hv, hhigh, hlow, hty, clipped, hclipped, hshape⟩
  · rintro ⟨hv, hhigh, hlow, hty, clipped, hclipped, hshape⟩
    exact ⟨_, _, _, ⟨rfl, rfl, rfl⟩, hv, by rwa [hlow], by rwa [hhigh], ⟨value.elem, clipped⟩,
      ⟨hv, hlow, rfl, hclipped⟩, ty, ⟨hv, hhigh, hty, hshape⟩, rfl⟩

/-- The type rule of `where` joins the values first. -/
theorem inferCallResults_where_iff {condition lhs rhs ty : TensorType} :
    inferCallResults .where_ [condition, lhs, rhs] = .ok [ty] ↔
      condition.elem = .bool ∧ rhs.elem = lhs.elem ∧ ty.elem = lhs.elem ∧
        ((broadcastJoin lhs.shape rhs.shape).bind fun values =>
          broadcastJoin condition.shape values) = some ty.shape := by
  have hbool : ∀ elem : ElementType, elem.isBool = true ↔ elem = .bool := by
    intro elem
    cases elem <;> simp [ElementType.isBool]
  simp only [inferCallResults, whereResultType, except_bind_eq_ok_iff, expectTernary_eq_ok_iff,
    Prod.exists, except_pure_eq_ok_iff, expectBoolElement, failIf_eq_ok_iff, exists_const,
    broadcastOr_eq_ok_iff, bne_eq_false_iff_eq, Bool.not_eq_false', hbool, broadcastJoin,
    Option.bind_eq_some_iff, except_toOption_eq_some_iff, List.cons.injEq, and_true]
  constructor
  · rintro ⟨_, _, _, ⟨rfl, rfl, rfl⟩, ty', ⟨hc, helem, ⟨elem, values⟩, ⟨-, hvalues⟩, hty,
      hshape⟩, rfl⟩
    exact ⟨hc, helem.symm, hty, values, hvalues, hshape⟩
  · rintro ⟨hc, helem, hty, values, hvalues, hshape⟩
    exact ⟨_, _, _, ⟨rfl, rfl, rfl⟩, ty, ⟨hc, helem.symm, ⟨lhs.elem, values⟩, ⟨rfl, hvalues⟩, hty,
      hshape⟩, rfl⟩

/-- **Broadcasting is a partial commutative idempotent monoid**: both sides of each
law are defined, and equal, or both are errors, and a joined shape is the least
one that both operands broadcast to.  Hence `clip` has one result type in the
type rule and in the lowering, and `where` has one in every grouping. -/
theorem broadcastShapeSlices_monoid :
    (∀ a b, broadcastJoin a b = broadcastJoin b a) ∧
    (∀ a b c, ((broadcastJoin a b).bind fun ab => broadcastJoin ab c) =
      (broadcastJoin b c).bind fun bc => broadcastJoin a bc) ∧
    (∀ a, broadcastShapeSlices a a = .ok a ∧ broadcastShapeSlices [] a = .ok a) ∧
    (∀ a b shape, broadcastShapeSlices a b = .ok shape →
      BroadcastsTo a shape ∧ BroadcastsTo b shape ∧
        ∀ big, BroadcastsTo a big → BroadcastsTo b big → BroadcastsTo shape big) ∧
    (∀ value low high ty, inferCallResults .clip [value, low, high] = .ok [ty] ↔
      value.elem.isNumeric = true ∧ clipResultType value low high = .ok ty) ∧
    (∀ (S : Type) [LinearOrder S] (value low high result : Value S),
      clip value low high = .ok result →
      clipResultType value.ty low.ty high.ty = .ok result.ty) ∧
    (∀ condition lhs rhs ty, inferCallResults .where_ [condition, lhs, rhs] = .ok [ty] ↔
      condition.elem = .bool ∧ rhs.elem = lhs.elem ∧
        whereSelectType condition lhs rhs = .ok ty) ∧
    (∀ (S : Type) (condition : Value Bool) (lhs rhs result : Value S),
      whereSelect condition lhs rhs = .ok result →
      whereSelectType condition.ty lhs.ty rhs.ty = .ok result.ty) ∧
    (∀ condition lhs rhs, ((broadcastJoin lhs rhs).bind fun values =>
      broadcastJoin condition values) =
        (broadcastJoin condition lhs).bind fun first => broadcastJoin first rhs) := by
  have hjoin := isPartialJoin_broadcastJoin
  refine ⟨hjoin.comm, hjoin.assoc, fun a => ⟨?_, ?_⟩, ?_, ?_, ?_, ?_, ?_, ?_⟩
  · exact broadcastShapeSlices_eq_right_iff.mpr (broadcastsTo_refl a)
  · exact broadcastShapeSlices_eq_right_iff.mpr (broadcastsTo_nil a)
  · intro a b shape h
    obtain ⟨hupper, hleast⟩ := hjoin.eq_some_iff.mp (except_toOption_eq_some_iff.mpr h)
    exact ⟨hupper a (by simp), hupper b (by simp), fun big ha hb => hleast big (by simp [ha, hb])⟩
  · intro value low high ty
    have horder : ((broadcastJoin value.shape low.shape).bind fun clipped =>
        broadcastJoin clipped high.shape) =
          (broadcastJoin value.shape high.shape).bind fun clipped =>
            broadcastJoin clipped low.shape := by
      rw [hjoin.assoc, hjoin.comm low.shape, ← hjoin.assoc]
    rw [inferCallResults_clip_iff, clipResultType_eq_ok_iff, horder]
  · exact fun S _ value low high result h => clip_ty h
  · intro condition lhs rhs ty
    rw [inferCallResults_where_iff, whereSelectType_eq_ok_iff]
  · exact fun S condition lhs rhs result h => whereSelect_ty h
  · exact fun condition lhs rhs => (hjoin.assoc condition lhs rhs).symm

end Knok.Lowering
