import Mathlib
import Knok.NumberFormat
import Knok.ReductionRule
import Knok.Arrays.Extreme
import Knok.Arrays.Products
import Knok.Lowering.Reductions

/-!
# Lowering argmax and argmin

Both are one `linalg.generic` with two results, the best index so far and its
value.  An entry replaces them when it is strictly better, or equal with a lower
index.  The value starts from the least or the greatest finite number of the type,
at index zero.

### Design decisions

* **Visits.**  The loop indices of a result position are visited in any order; the
  order is an argument.
* **Indices** are computed in 64 bits and compared as signed numbers.
-/

namespace Knok.Lowering

open Arrays Control

/-! ## The code -/

/-- The order in which the loop indices of a result position are visited. -/
structure VisitOrder where
  order : List ℕ → List (List ℕ) → List (List ℕ)
  perm : ∀ p ds, (order p ds).Perm ds

section Generic

variable {S T U : Type}

/-- The elements at a result position: the body, for every loop index that the
result map sends there. -/
def indexedElement (visits : VisitOrder) (inputs : List (Value S)) (inputMaps : List AffineMap)
    (outputMap : AffineMap) (bounds : List ℕ) (body : List ℕ → List S → T × U → T × U)
    (start : Option (T × U)) (p : List ℕ) : Option (T × U) :=
  (visits.order p ((positions bounds).filter (outputMap.eval · = p))).foldl
    (fun acc d => do
      let values ← readOperands inputs inputMaps d
      return body d values (← acc)) start

/-- `linalg.generic` with two results, whose body sees the loop index. -/
def appendLinalgIndexed (visits : VisitOrder) (inputs : List (Value S)) (first : Value T)
    (second : Value U) (ty ty' : TensorType) (loopRank : ℕ) (inputMaps : List AffineMap)
    (outputMap : AffineMap) (iterators : List IteratorType)
    (body : List ℕ → List S → T × U → T × U) : Except Error (Value T × Value U) := do
  let operands := inputMaps.zip (inputs.map (·.ty.shape)) ++
    [(outputMap, ty.shape), (outputMap, ty'.shape)]
  verify (inputMaps.length = inputs.length ∧ (first.kind = .tensor ∧ first.ty = ty) ∧
    (second.kind = .tensor ∧ second.ty = ty') ∧ iterators.length = loopRank)
    "linalg.generic operands do not match its maps"
  verify (∀ k < loopRank, some k ∈ outputMap ↔ iterators[k]? = some .parallel)
    "linalg.generic result does not match its iterators"
  match (List.range loopRank).mapM (loopBound operands) with
  | none => .error (.msg "linalg.generic loop bound is not determined by an operand")
  | some bounds => do
      verify (∀ operand ∈ operands, OperandFits bounds operand)
        "linalg.generic operand does not match the loop bounds"
      let element := fun p => indexedElement visits inputs inputMaps outputMap bounds body
        ((first.cell p).value?.bind fun t => (second.cell p).value?.map fun u => (t, u)) p
      let write := fun {V : Type} (v : Option V) => v.elim Cell.unwritten Cell.written
      let indices ← resultTensor ty fun p => write ((element p).map Prod.fst)
      let values ← resultTensor ty' fun p => write ((element p).map Prod.snd)
      return (indices, values)

/-- An operation whose operands fit the loops, with the pairs that its body leaves
behind. -/
theorem exists_appendLinalgIndexed {visits : VisitOrder} {inputs : List (Value S)}
    {first : Value T} {second : Value U} {ty ty' : TensorType} {maps : List AffineMap}
    {outputMap : AffineMap} {iterators : List IteratorType}
    {body : List ℕ → List S → T × U → T × U} {bounds : List ℕ} {s : List ℕ → T × U}
    {x : List ℕ → T × U} (hmaps : maps.length = inputs.length)
    {hdims : DimsFit ty.shape} {hdims' : DimsFit ty'.shape}
    (hfirst : first = .tensor ty (fun p => .written (s p).1) hdims)
    (hsecond : second = .tensor ty' (fun p => .written (s p).2) hdims')
    (hlength : iterators.length = bounds.length)
    (hfits : ∀ operand ∈ maps.zip (inputs.map (·.ty.shape)) ++
      [(outputMap, ty.shape), (outputMap, ty'.shape)], OperandFits bounds operand)
    (hall : ∀ k < bounds.length, ∃ operand ∈ maps.zip (inputs.map (·.ty.shape)) ++
      [(outputMap, ty.shape), (outputMap, ty'.shape)], some k ∈ operand.1)
    (hiterators : ∀ k < bounds.length, some k ∈ outputMap ↔ iterators[k]? = some .parallel)
    (hbody : ∀ p, InBounds p ty.shape →
      indexedElement visits inputs maps outputMap bounds body (some (s p)) p = some (x p)) :
    ∃ value value', appendLinalgIndexed visits inputs first second ty ty' bounds.length maps
      outputMap iterators body = .ok (value, value') ∧ value.ty = ty ∧
        value.Holds fun p => (x p).1 := by
  subst hfirst hsecond
  refine ⟨.tensor ty (fun p => ((indexedElement visits inputs maps outputMap bounds body
    (some (s p)) p).map Prod.fst).elim .unwritten .written) hdims, .tensor ty' (fun p =>
    ((indexedElement visits inputs maps outputMap bounds body (some (s p)) p).map
      Prod.snd).elim .unwritten .written) hdims', ?_, rfl, fun p hp => ?_⟩
  · unfold appendLinalgIndexed
    dsimp only
    rw [mapM_loopBound hfits hall]
    simp only [except_bind_eq_ok_iff, verify_eq_ok_iff, except_pure_eq_ok_iff, exists_const]
    exact ⟨⟨hmaps, ⟨rfl, rfl⟩, ⟨rfl, rfl⟩, hlength⟩, hiterators, hfits, _, resultTensor_of hdims,
      _, resultTensor_of hdims', rfl⟩
  · rw [Value.tensor_cell, hbody p hp]
    rfl

end Generic

/-- `Extreme`. -/
inductive Extreme where
  | max
  | min
  deriving DecidableEq

namespace Extreme

/-- `arg_op_name`. -/
def argOpName : Extreme → String
  | max => "argmax"
  | min => "argmin"

/-- `initial_value`. -/
def initialValue : Extreme → (elem : ElementType) → BitVec elem.width
  | max, elem => minNumericLiteral elem
  | min, elem => maxNumericLiteral elem

/-- `ordering_predicate`. -/
def orderingPredicate : Extreme → ElementType → CmpPredicate
  | max, elem => if elem.isFloat then .ogt else if elem = .bool then .ugt else .sgt
  | min, elem => if elem.isFloat then .olt else if elem = .bool then .ult else .slt

/-- The operation that the lowering is for. -/
def callOp : Extreme → AxisSpec → CallOp
  | max => .argmax
  | min => .argmin

end Extreme

/-- `arg_candidate_index`. -/
def argCandidateIndex (shape : List ℕ) : AxisSpec → List ℕ → BitVec 64
  | .one axis, d => BitVec.ofNat 64 (d.getD axis 0)
  | .all, d =>
      (List.range' 1 (shape.length - 1)).foldl (fun flattened axis =>
        flattened * BitVec.ofNat 64 (shape.getD axis 0) + BitVec.ofNat 64 (d.getD axis 0))
        (BitVec.ofNat 64 (d.getD 0 0))

section Code

variable {elem : ElementType}

/-- The predicate for equal values. -/
def equalPredicate (elem : ElementType) : CmpPredicate := if elem.isFloat then .oeq else .eq

/-- The region that `arg_extreme` builds. -/
def argExtremeBody (extreme : Extreme) (elem : ElementType) (shape : List ℕ) (axis : AxisSpec)
    (d : List ℕ) (args : List (BitVec elem.width)) (acc : BitVec 64 × BitVec elem.width) :
    BitVec 64 × BitVec elem.width :=
  match args with
  | [x] =>
      let candidateIndex := argCandidateIndex shape axis d
      let ordered := (extreme.orderingPredicate elem).holds elem x acc.2
      let equal := (equalPredicate elem).holds elem x acc.2
      let lowerIndex := candidateIndex.slt acc.1
      let tiedBefore := equal && lowerIndex
      let candidateBetter := ordered || tiedBefore
      (if candidateBetter then candidateIndex else acc.1, if candidateBetter then x else acc.2)
  | _ => acc

/-- `arg_extreme`. -/
def argExtreme (visits : VisitOrder) (extreme : Extreme) (input : Value (BitVec elem.width))
    (axis : AxisSpec) : Except Error (Value (BitVec 64)) := do
  ensureNonEmptyReduction input.ty axis extreme.argOpName
  if input.ty.rank = 0 ∧ axis = .all then
    splat (.scalar .i64 (.written (BitVec.ofNat 64 0))) ⟨.i64, []⟩
  else
    let indexTy : TensorType := ⟨.i64, reductionOutputShape input.ty.shape axis false⟩
    let valueTy : TensorType := ⟨input.ty.elem, indexTy.shape⟩
    let initIndex ← fillTensor indexTy (BitVec.ofNat 64 0)
    let initValue ← fillTensor valueTy (extreme.initialValue elem)
    let rank := input.ty.rank
    let raw ← appendLinalgIndexed visits [input] initIndex initValue indexTy valueTy rank
      [identityMap rank] (reductionOutputMap rank axis false) (reductionIteratorTypes rank axis)
      (argExtremeBody extreme elem input.ty.shape axis)
    return raw.1

end Code

/-! ## One scale for both -/

namespace Extreme

variable {elem : ElementType} {x y : BitVec elem.width}

/-- How good a number is. -/
def rank (extreme : Extreme) (elem : ElementType) (x : BitVec elem.width) : ℤ :=
  match extreme with
  | max => elem.scale x
  | min => -elem.scale x

theorem isNan_initialValue (extreme : Extreme) (elem : ElementType) :
    elem.isNan (extreme.initialValue elem) = false := by
  cases extreme with
  | max => exact isNan_minNumericLiteral elem
  | min => exact isNan_maxNumericLiteral elem

/-- Numbers are compared by rank. -/
theorem holds_orderingPredicate (extreme : Extreme) (hx : elem.isNan x = false)
    (hy : elem.isNan y = false) :
    (extreme.orderingPredicate elem).holds elem x y =
      decide (extreme.rank elem y < extreme.rank elem x) := by
  cases extreme with
  | max =>
      cases elem with
      | bool => exact decide_eq_decide.mpr Int.ofNat_lt.symm
      | i32 | i64 => rfl
      | f32 | f64 | f16 | bf16 =>
          show (!_ && !_ && decide _) = decide _
          rw [hx, hy]
          rfl
  | min =>
      have hflip : decide (Extreme.min.rank elem y < Extreme.min.rank elem x) =
          decide (elem.scale x < elem.scale y) := decide_eq_decide.mpr neg_lt_neg_iff
      rw [hflip]
      cases elem with
      | bool => exact decide_eq_decide.mpr Int.ofNat_lt.symm
      | i32 | i64 => rfl
      | f32 | f64 | f16 | bf16 =>
          show (!_ && !_ && decide _) = decide _
          rw [hx, hy]
          rfl

theorem rank_inj {extreme : Extreme} :
    extreme.rank elem x = extreme.rank elem y ↔ elem.scale x = elem.scale y := by
  cases extreme with
  | max => exact Iff.rfl
  | min => exact neg_inj

theorem holds_equalPredicate (extreme : Extreme) (hx : elem.isNan x = false)
    (hy : elem.isNan y = false) :
    (equalPredicate elem).holds elem x y =
      decide (extreme.rank elem y = extreme.rank elem x) := by
  rw [decide_eq_decide.mpr (eq_comm.trans rank_inj), equalPredicate]
  cases hfloat : elem.isFloat with
  | true =>
      show (!_ && !_ && (elem.scale x == elem.scale y)) = _
      rw [hx, hy]
      rfl
  | false => exact decide_eq_decide.mpr (scale_inj hfloat).symm

end Extreme

/-! ## Indices -/

/-- The number of an entry in its group: its row-major number when all axes are
reduced. -/
def axisNumber : AxisSpec → List ℕ → List ℕ → ℕ
  | .one axis, _, d => d.getD axis 0
  | .all, shape, d => ravel shape d

/-- The signed value of a computed index. -/
def indexImage (n : ℕ) : ℤ := (BitVec.ofNat 64 n).toInt

theorem indexImage_le (n : ℕ) : indexImage n ≤ n := by
  rw [indexImage, BitVec.toInt_eq_toNat_cond, BitVec.toNat_ofNat]
  split_ifs <;> omega

theorem indexImage_of_lt {n : ℕ} (h : n < 2 ^ 63) : indexImage n = n := by
  rw [indexImage, BitVec.toInt_eq_toNat_cond, BitVec.toNat_ofNat]
  split_ifs <;> omega

variable {shape d : List ℕ} {axis : AxisSpec}

/-- The index loop computes the number in 64 bits. -/
theorem argCandidateIndex_eq (hrank : shape ≠ []) (hd : InBounds d shape) :
    argCandidateIndex shape axis d = BitVec.ofNat 64 (axisNumber axis shape d) := by
  cases axis with
  | one axis => rfl
  | all =>
      -- after `n` more axes the index is the number in the first `n + 1` axes
      have hloop : ∀ n < shape.length, (List.range' 1 n).foldl (fun flattened axis =>
          flattened * BitVec.ofNat 64 (shape.getD axis 0) + BitVec.ofNat 64 (d.getD axis 0))
          (BitVec.ofNat 64 (d.getD 0 0)) =
            BitVec.ofNat 64 (ravel (shape.take (n + 1)) (d.take (n + 1))) := by
        intro n
        induction n with
        | zero =>
            intro hn
            obtain ⟨dim, shape, rfl⟩ := List.exists_cons_of_ne_nil hrank
            obtain ⟨k, rest, -, -, rfl⟩ := List.forall₂_cons_right_iff.mp hd
            simp [ravel]
        | succ n ih =>
            intro hn
            have hlen : n + 1 < d.length := hd.length_eq ▸ hn
            have hprefix : (d.take (n + 1)).length = (shape.take (n + 1)).length := by
              rw [List.length_take, List.length_take, hd.length_eq]
            rw [List.range'_1_concat, List.foldl_append, ih (Nat.lt_of_succ_lt hn),
              List.take_succ_eq_append_getElem hn, List.take_succ_eq_append_getElem hlen,
              ravel_append hprefix, Nat.add_comm 1 n]
            simp [ravel, BitVec.ofNat_add, BitVec.ofNat_mul, hn, hlen]
      have hpos : 0 < shape.length := List.length_pos_iff.mpr hrank
      have hlast : shape.length - 1 + 1 = shape.length := Nat.sub_add_cancel hpos
      have hall := hloop (shape.length - 1) (Nat.sub_lt hpos Nat.zero_lt_one)
      have htake : d.take shape.length = d := by rw [← hd.length_eq, List.take_length]
      rw [hlast, List.take_length, htake] at hall
      exact hall

/-! ## What the reduction keeps -/

section Scan

variable {extreme : Extreme} {elem : ElementType} {x : List ℕ → BitVec elem.width}
  {acc : BitVec 64 × BitVec elem.width}

/-- How good an accumulator is. -/
def scanPlace (extreme : Extreme) (acc : BitVec 64 × BitVec elem.width) : ℤ ×ₗ ℤᵒᵈ :=
  place (extreme.rank elem acc.2) acc.1.toInt

/-- **The region keeps the better of two entries.** -/
theorem scanPlace_argExtremeBody (hx : elem.isNan (x d) = false) (hacc : elem.isNan acc.2 = false) :
    elem.isNan (argExtremeBody extreme elem shape axis d [x d] acc).2 = false ∧
      scanPlace extreme (argExtremeBody extreme elem shape axis d [x d] acc) =
        max (scanPlace extreme acc)
          (scanPlace extreme (argCandidateIndex shape axis d, x d)) := by
  have hbetter : ((extreme.orderingPredicate elem).holds elem (x d) acc.2 ||
      (equalPredicate elem).holds elem (x d) acc.2 &&
        (argCandidateIndex shape axis d).slt acc.1) =
      decide (extreme.rank elem acc.2 < extreme.rank elem (x d) ∨
        extreme.rank elem acc.2 = extreme.rank elem (x d) ∧
          (argCandidateIndex shape axis d).toInt < acc.1.toInt) := by
    rw [extreme.holds_orderingPredicate hx hacc, extreme.holds_equalPredicate hx hacc,
      Bool.decide_or, Bool.decide_and]
    rfl
  unfold argExtremeBody scanPlace
  dsimp only
  rw [hbetter, max_place]
  simp only [decide_eq_true_eq]
  split_ifs
  · exact ⟨hx, rfl⟩
  · exact ⟨hacc, rfl⟩

/-- A scan keeps the best of its start and all entries. -/
theorem scanPlace_foldl {ds : List (List ℕ)} (hx : ∀ d ∈ ds, elem.isNan (x d) = false)
    (hacc : elem.isNan acc.2 = false) :
    scanPlace extreme (ds.foldl
      (fun acc d => argExtremeBody extreme elem shape axis d [x d] acc) acc) =
        (ds.map fun d => scanPlace extreme (argCandidateIndex shape axis d, x d)).foldl max
          (scanPlace extreme acc) := by
  induction ds generalizing acc with
  | nil => rfl
  | cons d ds ih =>
      obtain ⟨hnumber, hplace⟩ := @scanPlace_argExtremeBody shape d axis extreme elem x acc
        (hx d List.mem_cons_self) hacc
      rw [List.foldl_cons, ih (fun e he => hx e (List.mem_cons_of_mem d he)) hnumber, hplace,
        List.map_cons, List.foldl_cons]

/-- The accumulator that a scan starts from. -/
def scanStart (extreme : Extreme) (elem : ElementType) : BitVec 64 × BitVec elem.width :=
  (BitVec.ofNat 64 0, extreme.initialValue elem)

/-- The group of a result position, in the order of the visits. -/
def visitedGroup (visits : VisitOrder) (axis : AxisSpec) (shape p : List ℕ) : List (List ℕ) :=
  visits.order p ((positions shape).filter (axis.reduce · = p))

theorem mem_visitedGroup {visits : VisitOrder} {p : List ℕ} :
    d ∈ visitedGroup visits axis shape p ↔ d ∈ members shape axis.reduce p := by
  rw [visitedGroup, (visits.perm p _).mem_iff, List.mem_filter, mem_positions, decide_eq_true_eq,
    mem_members]

/-- What the scan of a group ends with. -/
def scanned (visits : VisitOrder) (extreme : Extreme) (axis : AxisSpec) (shape : List ℕ)
    (x : List ℕ → BitVec elem.width) (p : List ℕ) : BitVec 64 × BitVec elem.width :=
  (visitedGroup visits axis shape p).foldl
    (fun acc d => argExtremeBody extreme elem shape axis d [x d] acc) (scanStart extreme elem)

/-- The scan ends with the best place of the seed and of the group. -/
theorem place_scanned (visits : VisitOrder) (hne : shape ≠ [])
    (hnumbers : ∀ d, InBounds d shape → elem.isNan (x d) = false) (p : List ℕ) :
    place (extreme.rank elem (scanned visits extreme axis shape x p).2)
        (scanned visits extreme axis shape x p).1.toInt =
      ((visitedGroup visits axis shape p).map fun d => place (extreme.rank elem (x d))
        (indexImage (axisNumber axis shape d))).foldl max
          (place (extreme.rank elem (extreme.initialValue elem)) 0) := by
  have hmem : ∀ d ∈ visitedGroup visits axis shape p, InBounds d shape := fun d hd =>
    (mem_members.mp (mem_visitedGroup.mp hd)).1
  have hscan := @scanPlace_foldl shape axis extreme elem x (scanStart extreme elem)
    (visitedGroup visits axis shape p) (fun d hd => hnumbers d (hmem d hd))
    (extreme.isNan_initialValue elem)
  have himages : ((visitedGroup visits axis shape p).map fun d =>
      scanPlace extreme (argCandidateIndex shape axis d, x d)) =
        (visitedGroup visits axis shape p).map fun d => place (extreme.rank elem (x d))
          (indexImage (axisNumber axis shape d)) := by
    apply List.map_congr_left
    intro d hd
    rw [argCandidateIndex_eq hne (hmem d hd)]
    rfl
  rw [himages] at hscan
  exact hscan

variable {input : Value (BitVec elem.width)}

/-- The loops of the lowering leave behind what the scans end with. -/
theorem exists_argScan (visits : VisitOrder) (hfits : axis.Fits input.ty.shape)
    (hx : input.Holds x) :
    ∃ value value', appendLinalgIndexed visits [input]
        (.tensor ⟨.i64, axis.reduce input.ty.shape⟩ (fun _ => .written (BitVec.ofNat 64 0))
          (dimsFit_reduce axis input.dims_fit))
        (.tensor ⟨input.ty.elem, axis.reduce input.ty.shape⟩ (fun _ =>
          .written (extreme.initialValue elem)) (dimsFit_reduce axis input.dims_fit))
        ⟨.i64, axis.reduce input.ty.shape⟩ ⟨input.ty.elem, axis.reduce input.ty.shape⟩
        input.ty.rank [identityMap input.ty.rank] (reductionOutputMap input.ty.rank axis false)
        (reductionIteratorTypes input.ty.rank axis)
        (argExtremeBody extreme elem input.ty.shape axis) = .ok (value, value') ∧
      value.ty = ⟨.i64, axis.reduce input.ty.shape⟩ ∧
      value.Holds fun p => (scanned visits extreme axis input.ty.shape x p).1 := by
  have hoperands : ∀ operand ∈ [(identityMap input.ty.rank, input.ty.shape),
      (reductionOutputMap input.ty.rank axis false, axis.reduce input.ty.shape),
      (reductionOutputMap input.ty.rank axis false, axis.reduce input.ty.shape)],
        OperandFits input.ty.shape operand := by
    have hresult := operandFits_reductionOutputMap hfits
    simp only [List.forall_mem_cons, List.not_mem_nil, false_imp_iff, implies_true, and_true]
    exact ⟨operandFits_identityMap_self input.ty.shape, hresult, hresult⟩
  refine exists_appendLinalgIndexed (s := fun _ => scanStart extreme elem) rfl rfl rfl
    (length_reductionIteratorTypes input.ty.rank axis) hoperands
    (fun k hk => ⟨_, List.mem_cons_self, mem_identityMap.mpr hk⟩)
    (fun k hk => mem_reductionOutputMap hk) fun p _ => ?_
  unfold indexedElement
  rw [TensorType.rank, filter_reductionOutputMap hfits]
  apply foldl_some_eq
  intro d hd acc
  have hd := (mem_members.mp (mem_visitedGroup.mp hd)).1
  have hread := eval_identityMap_self hd.length_eq
  simp [readOperands, hread, hx d hd, Cell.value?]

/-- **What the lowering computes**: at every position an index whose place is the
best of the seed's and of those of the group. -/
theorem exists_argExtreme (visits : VisitOrder) (hfits : axis.Fits input.ty.shape)
    (hcount : axis.usizeCount input.ty.shape ≠ 0) (hx : input.Holds x)
    (hnumbers : ∀ d, InBounds d input.ty.shape → elem.isNan (x d) = false) :
    ∃ value, argExtreme visits extreme input axis = .ok value ∧
      value.ty = ⟨.i64, axis.reduce input.ty.shape⟩ ∧
      ∀ i, InBounds i (axis.reduce input.ty.shape) → ∃ index v, ∃ ds : List (List ℕ),
        value.cell i = .written index ∧
          (∀ d, d ∈ ds ↔ d ∈ members input.ty.shape axis.reduce i) ∧
          place v index.toInt = (ds.map fun d => place (extreme.rank elem (x d))
            (indexImage (axisNumber axis input.ty.shape d))).foldl max
              (place (extreme.rank elem (extreme.initialValue elem)) 0) := by
  unfold argExtreme
  rw [ensureNonEmptyReduction_eq_ok hfits hcount extreme.argOpName]
  simp only [bind, Except.bind]
  by_cases hscalar : input.ty.rank = 0 ∧ axis = .all
  · -- the only entry has index zero
    obtain ⟨hrank, rfl⟩ := hscalar
    have hnil : input.ty.shape = [] := List.eq_nil_of_length_eq_zero hrank
    rw [if_pos ⟨hrank, rfl⟩, hnil]
    refine ⟨_, splat_scalar ⟨rfl, rfl, rfl⟩ dimsFit_nil, rfl, fun i hi => ?_⟩
    obtain rfl : i = [] := List.length_eq_zero_iff.mp hi.length_eq
    refine ⟨_, max (extreme.rank elem (extreme.initialValue elem)) (extreme.rank elem (x [])), [[]],
      rfl, fun d => ?_, ?_⟩
    · rw [mem_members, List.mem_singleton]
      constructor
      · rintro rfl
        exact ⟨.nil, rfl⟩
      · exact fun h => List.length_eq_zero_iff.mp h.1.length_eq
    · have himage : indexImage (axisNumber .all [] []) = 0 := by decide
      rw [List.map_singleton, himage, List.foldl_cons, List.foldl_nil]
      show place _ 0 = _
      rw [max_place]
      split_ifs with h
      · rcases h with hlt | ⟨-, hzero⟩
        · rw [max_eq_right hlt.le]
        · exact absurd hzero (lt_irrefl 0)
      · rw [max_eq_left (not_lt.mp fun hlt => h (.inl hlt))]
  · rw [if_neg hscalar]
    have hne : input.ty.shape ≠ [] := by
      intro hnil
      cases axis with
      | all => exact hscalar ⟨congrArg List.length hnil, rfl⟩
      | one axis =>
          have hlt : axis < input.ty.shape.length := hfits
          rw [hnil] at hlt
          exact absurd hlt (Nat.not_lt_zero _)
    have hshape : reductionOutputShape input.ty.shape axis false =
        axis.reduce input.ty.shape := by cases axis <;> rfl
    have hdims : DimsFit (axis.reduce input.ty.shape) := dimsFit_reduce axis input.dims_fit
    have hfill : ∀ {T : Type} (elem : ElementType) (v : T),
        fillTensor ⟨elem, axis.reduce input.ty.shape⟩ v =
          .ok (.tensor ⟨elem, axis.reduce input.ty.shape⟩ (fun _ => .written v) hdims) :=
      fun elem v => fillTensor_eq hdims v
    obtain ⟨value, value', hvalue, hty, hholds⟩ :=
      @exists_argScan axis extreme elem x input visits hfits hx
    refine ⟨value, ?_, hty, fun i hi => ⟨(scanned visits extreme axis input.ty.shape x i).1, _,
      visitedGroup visits axis input.ty.shape i, hholds i (by rwa [hty]),
      fun d => mem_visitedGroup, place_scanned visits hne hnumbers i⟩⟩
    simp only [hshape, hfill, hvalue]
    rfl

/-! ## The first extreme -/

/-- The first number at which the extreme of a group is attained. -/
def IsFirstExtreme (extreme : Extreme) (axis : AxisSpec) (shape : List ℕ)
    (x : List ℕ → BitVec elem.width) (i : List ℕ) (m : ℕ) : Prop :=
  IsFirstGreatest (members shape axis.reduce i) (fun d => extreme.rank elem (x d))
    (axisNumber axis shape) m

/-- At every position the lowered result is the first number at which the extreme
of the group is attained, in whatever order the entries are visited. -/
def ReturnsFirstExtreme (extreme : Extreme) (axis : AxisSpec) (input : Value (BitVec elem.width))
    (x : List ℕ → BitVec elem.width) (ty : TensorType) : Prop :=
  ∀ visits, ∃ value, argExtreme visits extreme input axis = .ok value ∧ value.ty = ty ∧
    ∀ i, InBounds i ty.shape → ∃ index m, value.cell i = .written index ∧
      IsFirstExtreme extreme axis input.ty.shape x i m ∧ index.toInt = m

/-- The seed does no harm to a group: unless the extreme is beyond the seed, the
first entry attains it, and no entry that attains it has a number whose 64-bit image
lies below the first. -/
def SeedHarmless (extreme : Extreme) (axis : AxisSpec) (shape : List ℕ)
    (x : List ℕ → BitVec elem.width) (i : List ℕ) : Prop :=
  ∀ d, IsGreatestEntry (members shape axis.reduce i) (fun d => extreme.rank elem (x d)) d →
    SeedKeeps (members shape axis.reduce i) (fun d => extreme.rank elem (x d))
      (axisNumber axis shape) (fun d => indexImage (axisNumber axis shape d))
      (extreme.rank elem (extreme.initialValue elem)) d

theorem argExtreme_typed {input ty : TensorType}
    (hok : inferCallResults (extreme.callOp axis) [input] = .ok [ty]) :
    axis.Fits input.shape ∧ axis.usizeCount input.shape ≠ 0 ∧
      ty = ⟨.i64, axis.reduce input.shape⟩ := by
  have hrule : ∃ out, reductionOutputType input axis = .ok out ∧ ty = { out with elem := .i64 } ∧
      axis.usizeCount input.shape ≠ 0 := by
    cases extreme with
    | max | min =>
        simp only [Extreme.callOp, inferCallResults, except_bind_eq_ok_iff, expectUnary_eq_ok_iff,
          expectNonEmptyReduction_eq_ok_iff, except_pure_eq_ok_iff] at hok
        obtain ⟨input', hinput, -, -, -, ⟨-, hcount⟩, out, hout, hty⟩ := hok
        obtain rfl := (List.cons.inj hinput).1
        exact ⟨out, hout, (List.cons.inj hty).1.symm, hcount⟩
  obtain ⟨out, hout, rfl, hcount⟩ := hrule
  obtain ⟨hfits, rfl⟩ := reductionOutputType_eq_ok_iff.mp hout
  exact ⟨hfits, hcount, rfl⟩

/-- **Where argmax and argmin return the first extreme.** -/
theorem returnsFirstExtreme_iff {ty : TensorType}
    (hok : inferCallResults (extreme.callOp axis) [⟨elem, shape⟩] = .ok [ty])
    (hty : input.ty = ⟨elem, shape⟩) (hx : input.Holds x)
    (hnumbers : ∀ d, InBounds d shape → elem.isNan (x d) = false) :
    ReturnsFirstExtreme extreme axis input x ty ↔
      ∀ i, InBounds i ty.shape → SeedHarmless extreme axis shape x i := by
  obtain ⟨hfits, hcount, rfl⟩ := argExtreme_typed hok
  obtain rfl : input.ty.shape = shape := by rw [hty]
  have hscans := fun visits => @exists_argExtreme axis extreme elem x input visits hfits hcount hx
    hnumbers
  have hposition : ∀ {i : List ℕ} {index : BitVec 64} {v : ℤ} {ds : List (List ℕ)} {m : ℕ},
      (∀ d, d ∈ ds ↔ d ∈ members input.ty.shape axis.reduce i) →
      place v index.toInt = (ds.map fun d => place (extreme.rank elem (x d))
        (indexImage (axisNumber axis input.ty.shape d))).foldl max
          (place (extreme.rank elem (extreme.initialValue elem)) 0) →
      IsFirstExtreme extreme axis input.ty.shape x i m →
      (index.toInt = m ↔ SeedHarmless extreme axis input.ty.shape x i) := fun hvisits hscan hm =>
    scan_eq_first_iff hvisits (fun d => indexImage_le _) hscan hm
  constructor
  · intro h i hi
    let visits : VisitOrder := ⟨fun _ ds => ds, fun _ ds => .refl ds⟩
    obtain ⟨value, hvalue, -, hcells⟩ := h visits
    obtain ⟨value', hvalue', -, hcells'⟩ := hscans visits
    obtain rfl : value = value' := Except.ok.inj (hvalue.symm.trans hvalue')
    obtain ⟨index, m, hcell, hm, hindex⟩ := hcells i hi
    obtain ⟨index', v, ds, hcell', hvisits, hscan⟩ := hcells' i hi
    obtain rfl : index = index' := Cell.written.inj (hcell.symm.trans hcell')
    exact (hposition hvisits hscan hm).mp hindex
  · intro h visits
    obtain ⟨value, hvalue, hvalueTy, hcells⟩ := hscans visits
    refine ⟨value, hvalue, hvalueTy, fun i hi => ?_⟩
    obtain ⟨index, v, ds, hcell, hvisits, hscan⟩ := hcells i hi
    have hgroup : (members input.ty.shape axis.reduce i).Nonempty := by
      rw [← Finset.card_pos, AxisSpec.card_members hfits hi]
      exact Nat.pos_of_ne_zero (AxisSpec.count_ne_zero hcount)
    obtain ⟨m, hm⟩ : ∃ m, IsFirstExtreme extreme axis input.ty.shape x i m :=
      exists_isFirstGreatest hgroup
    exact ⟨index, m, hcell, hm, (hposition hvisits hscan hm).mpr (h i hi)⟩

/-- One, infinity and infinity: the first infinity. -/
theorem returnsFirstExtreme_infinity :
    @ReturnsFirstExtreme .f32 .max .all
      (.tensor ⟨.f32, [3]⟩ fun d =>
        .written (bif d == [0] then BitVec.ofNat 32 0x3F800000 else BitVec.ofNat 32 0x7F800000))
      (fun d => bif d == [0] then BitVec.ofNat 32 0x3F800000 else BitVec.ofNat 32 0x7F800000)
      ⟨.i64, []⟩ := by
  refine (returnsFirstExtreme_iff rfl rfl (fun _ _ => rfl) fun d _ => ?_).mpr fun i hi d hd => ?_
  · cases d == [0] <;> decide
  · obtain rfl : i = [] := List.length_eq_zero_iff.mp hi.length_eq
    have hinside := (mem_members.mp hd.1).1
    constructor
    · intro hle
      have hbest := (hd.2 [1] (mem_members.mpr ⟨by decide, rfl⟩)).trans hle
      exact absurd hbest (by decide)
    · exact fun _ => ⟨d, hd, (indexImage_of_lt ((ravel_lt hinside).trans (by decide))).ge⟩

/-- Negative infinity and the lowest finite number: the second is greater, but it
equals the seed, and the lowering returns zero. -/
theorem not_returnsFirstExtreme_lowest :
    inferCallResults (.argmax (.one 0)) [⟨.f32, [2]⟩] = .ok [⟨.i64, []⟩] ∧
      ¬ @ReturnsFirstExtreme .f32 .max (.one 0)
        (.tensor ⟨.f32, [2]⟩ fun d =>
          .written (bif d == [0] then BitVec.ofNat 32 0xFF800000 else BitVec.ofNat 32 0xFF7FFFFF))
        (fun d => bif d == [0] then BitVec.ofNat 32 0xFF800000 else BitVec.ofNat 32 0xFF7FFFFF)
        ⟨.i64, []⟩ := by
  refine ⟨rfl, fun h => ?_⟩
  have hnumbers : ∀ d, InBounds d [2] → ElementType.f32.isNan
      (bif d == [0] then BitVec.ofNat 32 0xFF800000 else BitVec.ofNat 32 0xFF7FFFFF) = false := by
    intro d _
    cases d == [0] <;> decide
  have hharmless := (returnsFirstExtreme_iff rfl rfl (fun _ _ => rfl) hnumbers).mp h [] .nil [1]
  have hgreatest : ∀ e ∈ members [2] (AxisSpec.one 0).reduce [], Extreme.max.rank .f32
      (bif e == [0] then BitVec.ofNat 32 0xFF800000 else BitVec.ofNat 32 0xFF7FFFFF) ≤
        Extreme.max.rank .f32 (BitVec.ofNat 32 0xFF7FFFFF) := by
    intro e _
    cases e == [0] <;> decide
  obtain ⟨e, he, hzero⟩ :=
    (hharmless ⟨mem_members.mpr ⟨by decide, rfl⟩, hgreatest⟩).first (by decide)
  have hinside := (mem_members.mp he.1).1
  obtain ⟨k, rfl⟩ : ∃ k, e = [k] := List.length_eq_one_iff.mp hinside.length_eq
  obtain rfl : k = 0 := hzero
  have hbest := he.2 [1] (mem_members.mpr ⟨by decide, rfl⟩)
  exact absurd hbest (by decide)

/-- Some entry of a group has number zero. -/
theorem exists_axisNumber_eq_zero {i : List ℕ} (hfits : axis.Fits shape)
    (hd : d ∈ members shape axis.reduce i) :
    ∃ e ∈ members shape axis.reduce i, axisNumber axis shape e = 0 := by
  obtain ⟨hinside, hreduce⟩ := mem_members.mp hd
  cases axis with
  | all =>
      have hpos : 0 < shape.prod := Nat.zero_lt_of_lt (ravel_lt hinside)
      exact ⟨unravel shape 0, mem_members.mpr ⟨inBounds_unravel hpos, hreduce⟩, ravel_unravel hpos⟩
  | one axis =>
      have haxis : axis < shape.length := hfits
      have hpos : 0 < shape.getD axis 0 := Nat.zero_lt_of_lt (hinside.getD_lt haxis)
      refine ⟨d.set axis 0, mem_members.mpr ⟨?_, ?_⟩, ?_⟩
      · have hset := @InBounds.set d shape hinside axis 0 _ hpos
        rwa [set_getD_self] at hset
      · exact List.eraseIdx_set_eq.trans hreduce
      · show (d.set axis 0).getD axis 0 = 0
        rw [getD_set, hinside.length_eq, if_pos ⟨rfl, haxis⟩]

theorem axisNumber_lt (hfits : axis.Fits shape) (hd : InBounds d shape) :
    axisNumber axis shape d < axis.count shape := by
  cases axis with
  | all => exact ravel_lt hd
  | one axis => exact hd.getD_lt hfits

/-- Integers and booleans have no entry beyond the seed; in a group of at most
`2 ^ 63` entries every index is a signed number. -/
theorem seedHarmless_of_not_isFloat (hinteger : elem.isFloat = false) (hfits : axis.Fits shape)
    (hsmall : axis.count shape ≤ 2 ^ 63) (i : List ℕ) : SeedHarmless extreme axis shape x i := by
  have hseed : ∀ y : BitVec elem.width,
      extreme.rank elem (extreme.initialValue elem) ≤ extreme.rank elem y := by
    intro y
    obtain ⟨hlow, hhigh⟩ := @scale_literals_of_not_isFloat elem y hinteger
    cases extreme with
    | max => exact hlow
    | min => exact neg_le_neg hhigh
  intro d hd
  constructor
  · intro hle
    obtain ⟨e, he, hzero⟩ := exists_axisNumber_eq_zero hfits hd.1
    exact ⟨e, ⟨he, fun other hother => (hd.2 other hother).trans (hle.trans (hseed (x e)))⟩, hzero⟩
  · intro _
    have hlt := axisNumber_lt hfits (mem_members.mp hd.1).1
    exact ⟨d, hd, (indexImage_of_lt (hlt.trans_le hsmall)).ge⟩

end Scan

end Knok.Lowering
