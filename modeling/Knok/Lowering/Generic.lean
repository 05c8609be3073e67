import Mathlib
import Knok.Lowering.Dialect

/-!
# `linalg.generic`

A structured operation runs a body once for every loop index.  An affine map per
operand says which element the body reads or updates; here a map is a list with
one entry per operand axis, a loop dimension or the constant zero.  The loop
bounds are read off the operands.

### Design decisions

* **Order of loops.**  The body is run in row-major order of the loop indices.
* **Undefined elements.**  A body that reads an unwritten element leaves an
  unwritten one.
* **Contractions.**  A loop nest over the result's positions with one innermost
  reduction computes a sum (`appendLinalgGeneric_contraction`), whatever the
  operands' maps are, as long as they fit.
-/

namespace Knok.Lowering

open Arrays Control

variable {R : Type}

/-- One entry per operand axis: a loop dimension or the constant zero. -/
abbrev AffineMap := List (Option ℕ)

/-- The operand position for a loop index. -/
def AffineMap.eval (map : AffineMap) (d : List ℕ) : List ℕ :=
  List.map (fun e => e.elim 0 fun k => d.getD k 0) map

/-- Iterator kinds of loops. -/
inductive IteratorType
  | parallel
  | reduction
deriving DecidableEq

/-- The first operand dimension that a loop runs over. -/
def loopBound (operands : List (AffineMap × List ℕ)) (k : ℕ) : Option ℕ :=
  operands.findSome? fun operand =>
    (List.zip operand.1 operand.2).findSome? fun (e, dim) =>
      if e = some k then some dim else none

instance instDecidableMemMap (e : Option ℕ) (map : AffineMap) : Decidable (e ∈ map) :=
  inferInstanceAs (Decidable (_ ∈ (_ : List (Option ℕ))))

/-- An operand fits the loops: a loop dimension runs over exactly its axis, and
where the map says zero there is an element. -/
def OperandFits (bounds : List ℕ) (operand : AffineMap × List ℕ) : Prop :=
  List.Forall₂ (fun e dim => e.elim (0 < dim) fun k => k < bounds.length ∧ bounds.getD k 0 = dim)
    operand.1 operand.2

instance instDecidableElim (e : Option ℕ) (p : Prop) (q : ℕ → Prop) [Decidable p] [∀ k, Decidable (q k)] :
    Decidable (e.elim p q) :=
  match e with
  | none => inferInstanceAs (Decidable p)
  | some k => inferInstanceAs (Decidable (q k))

instance (bounds : List ℕ) (operand : AffineMap × List ℕ) : Decidable (OperandFits bounds operand) :=
  inferInstanceAs (Decidable (List.Forall₂ _ _ _))

/-- The element at a result position: the body, for every loop index that the
result map sends there. -/
def genericElement (inputs : List (Value R)) (inputMaps : List AffineMap) (outputMap : AffineMap)
    (bounds : List ℕ) (body : List R → R → R) (start : Option R) (p : List ℕ) : Option R :=
  ((positions bounds).filter (outputMap.eval · = p)).foldl
    (fun acc d => do
      let values ← (inputs.zip inputMaps).mapM fun (input, map) =>
        (input.cell (map.eval d)).value?
      return body values (← acc)) start

/-- `linalg.generic` with one result. -/
def appendLinalgGeneric (inputs : List (Value R)) (output : Value R) (ty : TensorType)
    (loopRank : ℕ) (inputMaps : List AffineMap) (outputMap : AffineMap)
    (iterators : List IteratorType) (body : List R → R → R) : Except Error (Value R) := do
  let operands := inputMaps.zip (inputs.map (·.ty.shape)) ++ [(outputMap, ty.shape)]
  verify (inputMaps.length = inputs.length ∧ output.kind = .tensor ∧ output.ty = ty ∧
    iterators.length = loopRank) "linalg.generic operands do not match its maps"
  verify (∀ k < loopRank, some k ∈ outputMap ↔ iterators[k]? = some .parallel)
    "linalg.generic result does not match its iterators"
  match (List.range loopRank).mapM (loopBound operands) with
  | none => .error (.msg "linalg.generic loop bound is not determined by an operand")
  | some bounds => do
      verify (∀ operand ∈ operands, OperandFits bounds operand)
        "linalg.generic operand does not match the loop bounds"
      resultTensor ty fun p =>
        match genericElement inputs inputMaps outputMap bounds body (output.cell p).value? p with
        | some x => .written x
        | none => .unwritten

/-- The result map of a loop nest over the result's positions. -/
def identityMap (rank : ℕ) : AffineMap := (List.range rank).map some

/-- The elements that the operands have for a loop index. -/
def readOperands {S : Type} (inputs : List (Value S)) (inputMaps : List AffineMap) (d : List ℕ) :
    Option (List S) :=
  (inputs.zip inputMaps).mapM fun operand => (operand.1.cell (operand.2.eval d)).value?

/-- `linalg.generic` with parallel loops over the result's positions, whose body sees
the loop index and the operands' elements but not the result. -/
def appendLinalgParallel {S : Type} (inputs : List (Value S)) (output : Value R) (ty : TensorType)
    (inputMaps : List AffineMap) (body : List ℕ → List S → Option R) :
    Except Error (Value R) := do
  let operands := inputMaps.zip (inputs.map (·.ty.shape)) ++ [(identityMap ty.rank, ty.shape)]
  verify (inputMaps.length = inputs.length ∧ output.kind = .tensor ∧ output.ty = ty)
    "linalg.generic operands do not match its maps"
  match (List.range ty.rank).mapM (loopBound operands) with
  | none => .error (.msg "linalg.generic loop bound is not determined by an operand")
  | some bounds => do
      verify (∀ operand ∈ operands, OperandFits bounds operand)
        "linalg.generic operand does not match the loop bounds"
      resultTensor ty fun d =>
        match (readOperands inputs inputMaps d).bind (body d) with
        | some x => .written x
        | none => .unwritten

/-! ## Loop bounds -/

theorem OperandFits.inBounds {bounds d : List ℕ} {operand : AffineMap × List ℕ}
    (h : OperandFits bounds operand) (hd : InBounds d bounds) :
    InBounds (operand.1.eval d) operand.2 := by
  unfold AffineMap.eval
  rw [InBounds, List.forall₂_map_left_iff]
  refine h.imp fun e dim hfit => ?_
  cases e with
  | none => exact hfit
  | some k =>
      obtain ⟨hk, hdim⟩ := hfit
      rw [Option.elim_some, ← hdim]
      exact hd.getD_lt hk

/-- Operands that fit determine the bounds of the loops that they run over. -/
theorem loopBound_eq {operands : List (AffineMap × List ℕ)} {bounds : List ℕ} {k : ℕ}
    (hfits : ∀ operand ∈ operands, OperandFits bounds operand)
    (hk : ∃ operand ∈ operands, some k ∈ operand.1) :
    loopBound operands k = some (bounds.getD k 0) := by
  have hinner : ∀ operand ∈ operands, ∀ dim,
      (List.zip operand.1 operand.2).findSome? (fun (e, dim) =>
        if e = some k then some dim else none) = some dim → dim = bounds.getD k 0 := by
    intro operand hoperand dim hdim
    obtain ⟨⟨e, dim'⟩, hmem, heq⟩ := List.exists_of_findSome?_eq_some hdim
    dsimp only at heq
    split_ifs at heq with he
    obtain rfl := Option.some.inj heq
    subst he
    exact ((List.forall₂_zip (hfits operand hoperand)) hmem).2.symm
  obtain ⟨operand, hoperand, hmem⟩ := hk
  have hsome : (loopBound operands k).isSome := by
    rw [loopBound, List.findSome?_isSome_iff]
    refine ⟨operand, hoperand, ?_⟩
    rw [List.findSome?_isSome_iff]
    obtain ⟨axis, haxis, hget⟩ := List.mem_iff_getElem.mp hmem
    have hlen := (hfits operand hoperand).length_eq
    refine ⟨(some k, operand.2[axis]), ?_, by simp⟩
    rw [List.mem_iff_getElem]
    exact ⟨axis, by simp [hlen ▸ haxis, haxis], by rw [List.getElem_zip, hget]⟩
  obtain ⟨dim, hdim⟩ := Option.isSome_iff_exists.mp hsome
  obtain ⟨operand', hoperand', hfind⟩ := List.exists_of_findSome?_eq_some hdim
  rw [hdim, hinner operand' hoperand' dim hfind]

theorem mapM_loopBound {operands : List (AffineMap × List ℕ)} {bounds : List ℕ}
    (hfits : ∀ operand ∈ operands, OperandFits bounds operand)
    (hall : ∀ k < bounds.length, ∃ operand ∈ operands, some k ∈ operand.1) :
    (List.range bounds.length).mapM (loopBound operands) = some bounds := by
  have hbounds : List.Forall₂ (fun k dim => loopBound operands k = some dim)
      (List.range bounds.length) ((List.range bounds.length).map fun k => bounds.getD k 0) := by
    rw [List.forall₂_map_right_iff, List.forall₂_same]
    exact fun k hk => loopBound_eq hfits (hall k (List.mem_range.mp hk))
  rw [map_getD_range] at hbounds
  exact option_mapM_eq_some_iff.mpr hbounds

/-! ## The identity -/

theorem eval_identityMap {p : List ℕ} {rank : ℕ} (hlen : p.length = rank) (rest : List ℕ) :
    (identityMap rank).eval (p ++ rest) = p := by
  subst hlen
  unfold AffineMap.eval identityMap
  rw [List.map_map]
  refine Eq.trans (List.map_congr_left fun axis haxis => ?_) (map_getD_range p)
  rw [Function.comp_apply, Option.elim_some, List.getD_append _ _ _ _ (List.mem_range.mp haxis)]

theorem mem_identityMap {rank k : ℕ} : some k ∈ identityMap rank ↔ k < rank := by
  simp [identityMap]

theorem operandFits_identityMap (shape rest : List ℕ) :
    OperandFits (shape ++ rest) (identityMap shape.length, shape) := by
  unfold OperandFits identityMap
  conv => rhs; rw [← map_getD_range shape]
  rw [List.forall₂_map_left_iff, List.forall₂_map_right_iff, List.forall₂_same]
  intro k hk
  have hlt := List.mem_range.mp hk
  constructor
  · rw [List.length_append]
    exact Nat.lt_add_right _ hlt
  · rw [List.getD_append _ _ _ _ hlt]

/-- An operand that is read where the loops are. -/
theorem operandFits_identityMap_self (shape : List ℕ) :
    OperandFits shape (identityMap shape.length, shape) := by
  have h := operandFits_identityMap shape []
  rwa [List.append_nil] at h

theorem eval_identityMap_self {p : List ℕ} {rank : ℕ} (hlen : p.length = rank) :
    (identityMap rank).eval p = p := by
  have h := eval_identityMap hlen []
  rwa [List.append_nil] at h

/-! ## Runs of loops -/

/-- Consecutive loops read consecutive coordinates. -/
theorem eval_run (start count : ℕ) {i : List ℕ} (hle : start + count ≤ i.length) :
    AffineMap.eval ((List.range count).map fun axis => some (start + axis)) i =
      (i.drop start).take count := by
  unfold AffineMap.eval
  have hlen : ((i.drop start).take count).length = count := by
    rw [List.length_take, List.length_drop]
    omega
  rw [List.map_map, ← map_getD_range ((i.drop start).take count), hlen]
  apply List.map_congr_left
  intro axis haxis
  rw [Function.comp_apply, Option.elim_some, List.getD_eq_getElem?_getD,
    List.getD_eq_getElem?_getD, List.getElem?_take, if_pos (List.mem_range.mp haxis),
    List.getElem?_drop]

/-- Consecutive loops fit the operand that they run over. -/
theorem operandFits_run (p q r : List ℕ) :
    OperandFits (p ++ (q ++ r)) ((List.range q.length).map fun axis => some (p.length + axis), q) := by
  unfold OperandFits
  conv => rhs; rw [← map_getD_range q]
  rw [List.forall₂_map_left_iff, List.forall₂_map_right_iff, List.forall₂_same]
  intro axis haxis
  have haxis := List.mem_range.mp haxis
  constructor
  · simp only [List.length_append]
    omega
  · rw [List.getD_append_right _ _ _ _ (Nat.le_add_right _ _), Nat.add_sub_cancel_left,
      List.getD_append _ _ _ _ haxis]

/-! ## What the operation does when its checks pass -/

/-- An operation whose operands fit the loops, with the elements that its body
leaves behind. -/
theorem exists_appendLinalgGeneric {inputs : List (Value R)} {output : Value R} {ty : TensorType}
    {maps : List AffineMap} {outputMap : AffineMap} {iterators : List IteratorType}
    {body : List R → R → R} {bounds : List ℕ} {x : List ℕ → R}
    (hmaps : maps.length = inputs.length) (hkind : output.kind = .tensor) (hty : output.ty = ty)
    (hlength : iterators.length = bounds.length)
    (hfits : ∀ operand ∈ maps.zip (inputs.map (·.ty.shape)) ++ [(outputMap, ty.shape)],
      OperandFits bounds operand)
    (hall : ∀ k < bounds.length,
      ∃ operand ∈ maps.zip (inputs.map (·.ty.shape)) ++ [(outputMap, ty.shape)], some k ∈ operand.1)
    (hiterators : ∀ k < bounds.length, some k ∈ outputMap ↔ iterators[k]? = some .parallel)
    (hbody : ∀ p, InBounds p ty.shape →
      genericElement inputs maps outputMap bounds body (output.cell p).value? p = some (x p)) :
    ∃ value, appendLinalgGeneric inputs output ty bounds.length maps outputMap iterators body =
      .ok value ∧ value.ty = ty ∧ value.kind = .tensor ∧ value.Holds x := by
  refine ⟨.tensor ty (fun p => match genericElement inputs maps outputMap bounds body
    (output.cell p).value? p with
      | some x => .written x
      | none => .unwritten) (hty ▸ output.dims_fit), ?_, rfl, rfl, fun p hp => ?_⟩
  · unfold appendLinalgGeneric
    dsimp only
    rw [mapM_loopBound hfits hall]
    simp only [except_bind_eq_ok_iff, verify_eq_ok_iff, exists_const]
    exact ⟨⟨hmaps, hkind, hty, hlength⟩, hiterators, hfits, resultTensor_of _⟩
  · rw [Value.tensor_cell, hbody p hp]

/-- Parallel loops whose operands fit the result's positions. -/
theorem exists_appendLinalgParallel {S : Type} {inputs : List (Value S)} {output : Value R}
    {ty : TensorType} {maps : List AffineMap} {body : List ℕ → List S → Option R}
    {x : List ℕ → R} (hmaps : maps.length = inputs.length) (hkind : output.kind = .tensor)
    (hty : output.ty = ty)
    (hinputs : ∀ operand ∈ maps.zip (inputs.map (·.ty.shape)), OperandFits ty.shape operand)
    (hbody : ∀ p, InBounds p ty.shape →
      (readOperands inputs maps p).bind (body p) = some (x p)) :
    ∃ value, appendLinalgParallel inputs output ty maps body = .ok value ∧ value.ty = ty ∧
      value.kind = .tensor ∧ value.Holds x := by
  have hresult : OperandFits ty.shape (identityMap ty.rank, ty.shape) :=
    operandFits_identityMap_self ty.shape
  have hfits : ∀ operand ∈ maps.zip (inputs.map (·.ty.shape)) ++
      [(identityMap ty.rank, ty.shape)], OperandFits ty.shape operand := by
    intro operand hoperand
    rcases List.mem_append.mp hoperand with hinput | hlast
    · exact hinputs operand hinput
    · rw [List.mem_singleton.mp hlast]
      exact hresult
  have hall : ∀ k < ty.shape.length, ∃ operand ∈
      maps.zip (inputs.map (·.ty.shape)) ++ [(identityMap ty.rank, ty.shape)],
        some k ∈ operand.1 :=
    fun k hk => ⟨(identityMap ty.rank, ty.shape), by simp, mem_identityMap.mpr hk⟩
  have hbounds := mapM_loopBound hfits hall
  refine ⟨.tensor ty (fun d => match (readOperands inputs maps d).bind (body d) with
      | some x => .written x
      | none => .unwritten) (hty ▸ output.dims_fit), ?_, rfl, rfl, fun p hp => ?_⟩
  · unfold appendLinalgParallel
    dsimp only
    rw [show List.range ty.rank = List.range ty.shape.length from rfl, hbounds]
    simp only [except_bind_eq_ok_iff, verify_eq_ok_iff, exists_const]
    exact ⟨⟨hmaps, hkind, hty⟩, hfits, resultTensor_of _⟩
  · rw [Value.tensor_cell, hbody p hp]

/-- Parallel loops run over the result. -/
theorem operandFits_of_appendLinalgParallel {S : Type} {inputs : List (Value S)}
    {output value : Value R} {ty : TensorType} {maps : List AffineMap}
    {body : List ℕ → List S → Option R}
    (h : appendLinalgParallel inputs output ty maps body = .ok value) :
    ∀ operand ∈ maps.zip (inputs.map (·.ty.shape)), OperandFits ty.shape operand := by
  unfold appendLinalgParallel at h
  obtain ⟨_, -, hloops⟩ := except_bind_eq_ok_iff.mp h
  cases hbounds : (List.range ty.rank).mapM (loopBound (maps.zip (inputs.map (·.ty.shape)) ++
      [(identityMap ty.rank, ty.shape)])) with
  | none => simp [hbounds] at hloops
  | some bounds =>
      simp only [hbounds] at hloops
      obtain ⟨_, hverify, -⟩ := except_bind_eq_ok_iff.mp hloops
      have hfits := verify_eq_ok_iff.mp hverify
      -- the identity map of the result tells the bounds
      have hresult := hfits _ (List.mem_append_right _ List.mem_cons_self)
      have hsame : bounds = ty.shape := by
        have hlen : bounds.length = ty.shape.length := by
          rw [← (option_mapM_eq_some_iff.mp hbounds).length_eq, List.length_range]
          rfl
        refine ext_getD hlen fun axis haxis => ?_
        unfold OperandFits at hresult
        rw [identityMap, List.forall₂_map_left_iff, ← map_getD_range ty.shape,
          List.forall₂_map_right_iff, TensorType.rank, List.forall₂_same] at hresult
        exact (hresult axis (List.mem_range.mpr (hlen ▸ haxis))).2
      exact fun operand hoperand => hsame ▸ hfits operand (List.mem_append_left _ hoperand)

/-! ## Contractions -/

/-- Steps that keep the accumulator defined fold the values. -/
theorem foldl_some_eq {S D : Type} {step : Option S → D → Option S} {f : S → D → S} {ds : List D}
    (h : ∀ d ∈ ds, ∀ acc, step (some acc) d = some (f acc d)) (start : S) :
    ds.foldl step (some start) = some (ds.foldl f start) := by
  induction ds generalizing start with
  | nil => rfl
  | cons d ds ih =>
      rw [List.foldl_cons, h d List.mem_cons_self,
        ih fun d hd => h d (List.mem_cons_of_mem _ hd), List.foldl_cons]

/-- A fold that adds computes a sum. -/
theorem foldl_add_eq {S D : Type} [AddCommMonoid S] (v : D → S) (ds : List D) (start : S) :
    ds.foldl (fun acc d => acc + v d) start = start + (ds.map v).sum := by
  induction ds generalizing start with
  | nil => exact (add_zero start).symm
  | cons d ds ih => rw [List.foldl_cons, ih, List.map_cons, List.sum_cons, add_assoc]

/-- A sum over the loop indices that update one result position. -/
theorem sum_filter_identityMap {S : Type} [AddCommMonoid S] (shape : List ℕ) (dim : ℕ)
    (v : List ℕ → S) {p : List ℕ} (hp : InBounds p shape) :
    (((positions (shape ++ [dim])).filter
        ((identityMap shape.length).eval · = p)).map v).sum =
      ∑ k ∈ Finset.range dim, v (p ++ [k]) := by
  have heval : ∀ i, InBounds i shape → ∀ k,
      (identityMap shape.length).eval (i ++ [k]) = i := fun i hi k =>
    eval_identityMap hi.length_eq [k]
  rw [← List.sum_toFinset _ ((nodup_positions _).filter _), List.toFinset_filter,
    show (positions (shape ++ [dim])).toFinset = box (shape ++ [dim]) from rfl, Finset.sum_filter,
    sum_box_append]
  simp only [decide_eq_true_eq]
  rw [Finset.sum_eq_single p]
  · rw [sum_box_cons]
    refine Finset.sum_congr rfl fun k _ => ?_
    rw [sum_box_nil, heval p hp, if_pos rfl]
  · intro i hi hne
    rw [sum_box_cons]
    refine Finset.sum_eq_zero fun k _ => ?_
    rw [sum_box_nil, heval i (mem_box.mp hi), if_neg hne]
  · exact fun hnot => absurd (mem_box.mpr hp) hnot

section Contraction

variable {init : Value R} {ty : TensorType} {dim : ℕ} {body : List R → R → R}

/-- **A loop nest over the result's positions with one reduction inside computes
sums**, of whatever the body adds at a loop index. -/
theorem appendLinalgGeneric_sum [AddCommMonoid R] {inputs : List (Value R)}
    {maps : List AffineMap} {v : List ℕ → R} (hmaps : maps.length = inputs.length)
    (hinit : init.Holds fun _ => 0) (hkind : init.kind = .tensor) (hty : init.ty = ty)
    (hinputs : ∀ operand ∈ maps.zip (inputs.map (·.ty.shape)),
      OperandFits (ty.shape ++ [dim]) operand)
    (hdim : ∃ operand ∈ maps.zip (inputs.map (·.ty.shape)), some ty.rank ∈ operand.1)
    (hstep : ∀ d, InBounds d (ty.shape ++ [dim]) →
      ∃ values, readOperands inputs maps d = some values ∧ ∀ acc, body values acc = acc + v d) :
    ∃ value, appendLinalgGeneric inputs init ty (ty.rank + 1) maps (identityMap ty.rank)
        (List.replicate ty.rank .parallel ++ [.reduction]) body = .ok value ∧ value.ty = ty ∧
      value.Holds fun i => ∑ k ∈ Finset.range dim, v (i ++ [k]) := by
  have hbounds : (ty.shape ++ [dim]).length = ty.rank + 1 := List.length_append
  have hfits : ∀ operand ∈ maps.zip (inputs.map (·.ty.shape)) ++
      [(identityMap ty.rank, ty.shape)], OperandFits (ty.shape ++ [dim]) operand := by
    intro operand hoperand
    rcases List.mem_append.mp hoperand with hinput | hresult
    · exact hinputs operand hinput
    · rw [List.mem_singleton.mp hresult]
      exact operandFits_identityMap ty.shape [dim]
  have hall : ∀ k < (ty.shape ++ [dim]).length, ∃ operand ∈
      maps.zip (inputs.map (·.ty.shape)) ++ [(identityMap ty.rank, ty.shape)],
        some k ∈ operand.1 := by
    intro k hk
    rw [hbounds] at hk
    rcases Nat.lt_succ_iff_lt_or_eq.mp hk with hlt | rfl
    · exact ⟨(identityMap ty.rank, ty.shape), by simp, mem_identityMap.mpr hlt⟩
    · obtain ⟨operand, hoperand, hmem⟩ := hdim
      exact ⟨operand, List.mem_append_left _ hoperand, hmem⟩
  have hiterators : ∀ k < (ty.shape ++ [dim]).length, some k ∈ identityMap ty.rank ↔
      (List.replicate ty.rank IteratorType.parallel ++ [.reduction])[k]? = some .parallel := by
    intro k hk
    rw [hbounds] at hk
    rw [mem_identityMap, List.getElem?_append, List.length_replicate]
    split_ifs with hlt
    · simp [hlt]
    · rw [show k - ty.rank = 0 by omega]
      simp [hlt]
  have hbody : ∀ p, InBounds p ty.shape →
      genericElement inputs maps (identityMap ty.rank) (ty.shape ++ [dim]) body
        (init.cell p).value? p = some (∑ k ∈ Finset.range dim, v (p ++ [k])) := by
    intro p hp
    unfold genericElement
    rw [hinit p (hty ▸ hp), ← sum_filter_identityMap ty.shape dim v hp]
    refine (foldl_some_eq (fun d hd acc => ?_) 0).trans
      (congrArg some ((foldl_add_eq _ _ 0).trans (zero_add _)))
    obtain ⟨values, hread, hvalues⟩ := hstep d (mem_positions.mp (List.mem_of_mem_filter hd))
    show (readOperands inputs maps d).bind (fun values => some (body values acc)) = _
    rw [hread, Option.bind_some, hvalues]
  have hlength : (List.replicate ty.rank IteratorType.parallel ++ [IteratorType.reduction]).length =
      (ty.shape ++ [dim]).length := by
    rw [hbounds, List.length_append, List.length_replicate]
    rfl
  obtain ⟨value, hvalue, hvalueTy, -, hholds⟩ :=
    exists_appendLinalgGeneric hmaps hkind hty hlength hfits hall hiterators hbody
  rw [hbounds] at hvalue
  exact ⟨value, hvalue, hvalueTy, hholds⟩

variable [CommSemiring R] {lhs rhs : Value R} {a b : List ℕ → R} {lhsMap rhsMap : AffineMap}

/-- **Contractions**: sums of products, read through the operands' maps. -/
theorem appendLinalgGeneric_contraction (ha : lhs.Holds a) (hb : rhs.Holds b)
    (hinit : init.Holds fun _ => 0) (hkind : init.kind = .tensor) (hty : init.ty = ty)
    (hlhs : OperandFits (ty.shape ++ [dim]) (lhsMap, lhs.ty.shape))
    (hrhs : OperandFits (ty.shape ++ [dim]) (rhsMap, rhs.ty.shape))
    (hdim : some ty.rank ∈ lhsMap) (hbody : ∀ u v acc, body [u, v] acc = acc + u * v) :
    ∃ value, appendLinalgGeneric [lhs, rhs] init ty (ty.rank + 1) [lhsMap, rhsMap]
        (identityMap ty.rank) (List.replicate ty.rank .parallel ++ [.reduction]) body =
          .ok value ∧ value.ty = ty ∧
      value.Holds fun i => ∑ k ∈ Finset.range dim,
        a (lhsMap.eval (i ++ [k])) * b (rhsMap.eval (i ++ [k])) := by
  have hinputs : ∀ operand ∈ [(lhsMap, lhs.ty.shape), (rhsMap, rhs.ty.shape)],
      OperandFits (ty.shape ++ [dim]) operand := by
    simp only [List.forall_mem_cons, List.not_mem_nil, false_imp_iff, implies_true, and_true]
    exact ⟨hlhs, hrhs⟩
  have hmaps : [lhsMap, rhsMap].length = [lhs, rhs].length := rfl
  refine @appendLinalgGeneric_sum R init ty dim body _ [lhs, rhs] [lhsMap, rhsMap]
    (fun d => a (lhsMap.eval d) * b (rhsMap.eval d)) hmaps hinit hkind hty hinputs
    ⟨_, List.mem_cons_self, hdim⟩ fun d hd =>
      ⟨[a (lhsMap.eval d), b (rhsMap.eval d)], ?_, fun acc => hbody _ _ acc⟩
  have hlhs' := ha _ (hlhs.inBounds hd)
  have hrhs' := hb _ (hrhs.inBounds hd)
  dsimp only at hlhs' hrhs'
  simp [readOperands, hlhs', hrhs', Cell.value?]

end Contraction

end Knok.Lowering
