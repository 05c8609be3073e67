import Mathlib
import Knok.Arrays.Reduction
import Knok.Autograd.Adjoint.MovementRules

/-!
# Sizes of data movements

The type rules compute sizes on `usize` and accept an operation whose result size
wraps.  The gradients that are emitted for it are transposes exactly where the sizes
are those of the operation, and where nothing is moved and the emitted slices are
accepted (`gradientsTranspose_iff`).

### Design decisions

* **Out of bounds.**  Nothing is known of entries out of bounds.  A slice or a pad
  whose sizes wrap reads them on one side of the balance only.
* **Constant gradients.**  Of a tile, a repeat or a reshape whose sizes wrap it is
  enough to count: on ones, one side is the number of elements of the result and the
  other one that of the operand, times the copies (`AddsUp`).
-/

namespace Knok.Autograd

open Arrays Control

universe u

/-- The copies along an axis lie in the tiled axis, as far as `usize` goes. -/
def CopyFits (dim multiple : ℕ) : Prop :=
  ∀ k < multiple, usizeAdd (usizeMul k dim) dim ≤ usizeMul dim multiple

/-- No size wraps, or there is nothing to move and the copies of a tile lie in it; a
reshape keeps the number of elements. -/
def MovementFits (op : CallOp) (tys : List TensorType) : Prop :=
  let input := headType tys
  match op with
  | .slice target _ => SizesFit op tys ∨ 0 ∈ target.shape
  | .pad _ _ | .repeat_ _ _ => SizesFit op tys ∨ 0 ∈ input.shape
  | .tile multiples =>
      SizesFit op tys ∨ 0 ∈ multiples ∨ 0 ∈ input.shape ∧
        ∀ axis < input.rank, CopyFits (input.dim axis) (multiples.getD axis 0)
  | .reshape target => input.shape.prod = target.shape.prod
  | op => SizesFit op tys

/-! ## Boxes without positions -/

theorem not_inBounds_of_zero_mem {shape : List ℕ} (h : 0 ∈ shape) (i : List ℕ) :
    ¬ InBounds i shape := by
  intro hi
  obtain ⟨axis, haxis, hget⟩ := List.mem_iff_getElem.mp h
  have hcoord := hi.getD_lt haxis
  rw [List.getD_eq_getElem _ _ haxis, hget] at hcoord
  exact Nat.not_lt_zero _ hcoord

theorem inner_of_zero_mem {R : Type u} [CommRing R] {shape : List ℕ} (h : 0 ∈ shape)
    (x y : List ℕ → R) : inner shape x y = 0 :=
  Finset.sum_eq_zero fun i hi => absurd (mem_box.mp hi) (not_inBounds_of_zero_mem h i)

/-- The inner product of constants counts the positions. -/
theorem inner_constants {R : Type u} [CommRing R] (shape : List ℕ) (a b : R) :
    inner shape (fun _ => a) (fun _ => b) = shape.prod * (a * b) := by
  rw [Arrays.inner, Finset.sum_const, card_box, nsmul_eq_mul]

/-- A shape without zeros has a position, and its last one is one less than the
dimensions. -/
theorem exists_last {shape : List ℕ} (h : 0 ∉ shape) :
    ∃ i, InBounds i shape ∧ ∀ axis < shape.length, i.getD axis 0 + 1 = shape.getD axis 0 := by
  refine ⟨shape.map (· - 1), inBounds_iff_getD.mpr ⟨List.length_map _, ?_⟩, ?_⟩
  all_goals
    intro axis haxis
    try rw [List.length_map] at haxis
    have hpos : shape[axis] ≠ 0 := fun hzero => h (hzero ▸ List.getElem_mem haxis)
    rw [List.getD_eq_getElem _ _ haxis, List.getD_eq_getElem _ _ (by rwa [List.length_map]),
      List.getElem_map]
    omega

/-! ## Expressions that have a value -/

section Values

variable {R : Type u} [CommRing R] {A : Arithmetic R} {calls : Calls (Tensor R)}
  {values : Env (Tensor R)}

/-- The expression evaluates to some tensor. -/
def HasValue (A : Arithmetic R) (calls : Calls (Tensor R)) (values : Env (Tensor R)) (e : Expr) :
    Prop :=
  ∃ t, evalTensor A.interp calls values e = some t

theorem hasValue_of_evaluates {e : Expr} {ty : TensorType} {x : List ℕ → R}
    (h : Evaluates A calls values e ty x) : HasValue A calls values e := by
  obtain ⟨t, ht, -⟩ := h
  exact ⟨t, ht⟩

/-- An operation of one operand has a value if its operand has one that it accepts. -/
theorem exists_of_evalTensor_call {op : CallOp} {e : Expr} {t' : Tensor R}
    (hmoves : op.movesData = true)
    (h : evalTensor A.interp calls values (.call op [e]) = some t') :
    ∃ t tys, evalTensor A.interp calls values e = some t ∧
      inferCallResults op [t.ty] = .ok tys := by
  have hgraph : ∀ name, op ≠ .graph name := by
    rintro name rfl
    cases hmoves
  have hcall : ∀ vs, A.interp.call op [e] vs = vs.bind (A.call op) := by
    intro vs
    simp only [OpSemantics.checkedInterp,
      validateStaticCreationCall_of_not_static (isStaticCreation_of_movesData hmoves)]
    rfl
  rw [evalTensor, evalOutputs_call _ _ _ hgraph, hcall, evalArgs_eq_mapM, List.mapM_cons] at h
  cases ht : evalTensor A.interp calls values e with
  | none =>
      rw [ht] at h
      cases h
  | some t =>
      rw [ht] at h
      have hresults : (A.call op [t]).bind single = some t' := h
      unfold Arithmetic.call at hresults
      cases htype : inferCallResults op ([t].map (·.ty)) with
      | error error =>
          rw [htype] at hresults
          cases hresults
      | ok tys => exact ⟨t, tys, rfl, htype⟩

theorem hasValue_of_call {op : CallOp} {e : Expr} (hmoves : op.movesData = true)
    (h : HasValue A calls values (.call op [e])) : HasValue A calls values e := by
  obtain ⟨t', ht'⟩ := h
  obtain ⟨t, -, ht, -⟩ := exists_of_evalTensor_call hmoves ht'
  exact ⟨t, ht⟩

theorem hasValue_of_binary {op : BinaryOp} {lhs rhs : Expr}
    (h : HasValue A calls values (.binary op lhs rhs)) :
    HasValue A calls values lhs ∧ HasValue A calls values rhs := by
  obtain ⟨t, ht⟩ := h
  rw [evalTensor_binary, Option.bind_eq_some_iff] at ht
  obtain ⟨l, hl, ht⟩ := ht
  obtain ⟨r, hr, -⟩ := Option.bind_eq_some_iff.mp ht
  exact ⟨⟨l, hl⟩, ⟨r, hr⟩⟩

theorem hasValue_of_foldl_add {pieces : List Expr} :
    ∀ {acc : Expr}, HasValue A calls values (pieces.foldl (binary .add) acc) →
      HasValue A calls values acc ∧ ∀ piece ∈ pieces, HasValue A calls values piece := by
  induction pieces with
  | nil => exact fun h => ⟨h, fun _ hpiece => by cases hpiece⟩
  | cons piece pieces ih =>
      intro acc h
      obtain ⟨hacc, hrest⟩ := ih h
      obtain ⟨hacc, hpiece⟩ := hasValue_of_binary hacc
      exact ⟨hacc, List.forall_mem_cons.mpr ⟨hpiece, hrest⟩⟩

/-- A sum has a value if its pieces do. -/
theorem hasValue_of_sumPieces {pieces : List Expr} {e : Expr} (hsum : sumPieces pieces = some e)
    (h : HasValue A calls values e) : ∀ piece ∈ pieces, HasValue A calls values piece := by
  cases pieces with
  | nil => cases hsum
  | cons piece pieces =>
      obtain rfl := Option.some.inj hsum
      obtain ⟨hpiece, hrest⟩ := hasValue_of_foldl_add h
      exact List.forall_mem_cons.mpr ⟨hpiece, hrest⟩

/-! ## Counting copies -/

/-- The expression evaluates to a tensor of the type, which is `n` times the gradient
where the gradient is constant. -/
def AddsUp (A : Arithmetic R) (calls : Calls (Tensor R)) (values : Env (Tensor R))
    (g : List ℕ → R) (e : Expr) (ty : TensorType) (n : ℕ) : Prop :=
  ∃ t, evalTensor A.interp calls values e = some t ∧ t.ty = ty ∧
    ∀ c, (∀ i, g i = c) → ∀ i, t.entry i = n * c

namespace AddsUp

variable {g : List ℕ → R} {e e' : Expr} {elem : ElementType} {ty : TensorType} {n n' : ℕ}
  {shape size : List ℕ}

theorem grad (h : evalTensor A.interp calls values e = some ⟨ty, g⟩) :
    AddsUp A calls values g e ty 1 :=
  ⟨_, h, rfl, fun c hc i => by rw [Nat.cast_one, one_mul]; exact hc i⟩

theorem evaluates (h : AddsUp A calls values g e ty n) :
    ∃ x, Evaluates A calls values e ty x := by
  obtain ⟨t, ht, hty, -⟩ := h
  exact ⟨t.entry, t, ht, hty, fun _ _ => rfl⟩

/-- The entries, where the gradient is constant. -/
theorem entry_eq (h : AddsUp A calls values g e ty n) {c : R} (hc : ∀ i, g i = c)
    {x : List ℕ → R} (hx : Evaluates A calls values e ty x) {i : List ℕ} (hi : InBounds i ty.shape) :
    x i = n * c := by
  obtain ⟨t, ht, -, hconst⟩ := h
  obtain ⟨t', ht', -, hentry⟩ := hx
  obtain rfl := Option.some.inj (ht.symm.trans ht')
  rw [← hentry i hi, hconst c hc]

theorem call {op : CallOp} {resultTy : TensorType} (h : AddsUp A calls values g e ty n)
    (htype : inferCallResults op [ty] = .ok [resultTy])
    (hstatic : op.isStaticCreation = false)
    (hentry : ∀ (t : Tensor R) (c : R), t.ty = ty → (∀ i, t.entry i = c) →
      ∀ i, A.callEntry op [t] 0 i = n' * c) :
    AddsUp A calls values g (.call op [e]) resultTy (n * n') := by
  obtain ⟨t, ht, rfl, hconst⟩ := h
  refine ⟨_, evalTensor_call_unary hstatic htype ht, rfl, fun c hc i => ?_⟩
  show A.callEntry op [t] 0 i = _
  rw [hentry t (n * c) rfl (hconst c hc), Nat.cast_mul]
  ring

/-- Data that is moved without gaps. -/
theorem movement {op : CallOp} {resultTy : TensorType} (h : AddsUp A calls values g e ty n)
    (htype : inferCallResults op [ty] = .ok [resultTy]) (hmoves : op.movesData = true)
    (hsplit : ∀ axis sections, op ≠ .split axis sections)
    (hlaw : ∀ i, ∃ j, movementLaw op [ty] 0 i = some (0, j)) :
    AddsUp A calls values g (.call op [e]) resultTy n := by
  have hone : ∀ (t : Tensor R) (c : R), t.ty = ty → (∀ i, t.entry i = c) →
      ∀ i, A.callEntry op [t] 0 i = (1 : ℕ) * c := by
    intro t c ht hc i
    obtain ⟨j, hj⟩ := hlaw i
    rw [A.callEntry_of_movesData hmoves hsplit, List.map_singleton, ht, movedArray_of_law hj,
      Nat.cast_one, one_mul]
    exact hc j
  have hmoved := h.call htype (isStaticCreation_of_movesData hmoves) hone
  rwa [Nat.mul_one] at hmoved

theorem add (helem : ty.elem.isNumeric = true) (h : AddsUp A calls values g e ty n)
    (h' : AddsUp A calls values g e' ty n') :
    AddsUp A calls values g (.binary .add e e') ty (n + n') := by
  obtain ⟨l, hl, rfl, hlconst⟩ := h
  obtain ⟨r, hr, hrty, hrconst⟩ := h'
  refine ⟨⟨l.ty, fun i => A.binaryEntry l.ty.elem .add (l.at i) (r.at i)⟩, ?_, rfl,
    fun c hc i => ?_⟩
  · rw [evalTensor_binary, hl, hr]
    show A.binary .add l r = _
    rw [Arithmetic.binary, hrty, binaryResultType_self helem]
  · show l.at i + r.at i = _
    rw [Tensor.at, Tensor.at, hlconst c hc, hrconst c hc, Nat.cast_add]
    ring

theorem foldl_add (helem : ty.elem.isNumeric = true) {pieces : List Expr} :
    ∀ {acc : Expr} {m : ℕ}, AddsUp A calls values g acc ty m →
      (∀ piece ∈ pieces, AddsUp A calls values g piece ty n) →
      AddsUp A calls values g (pieces.foldl (binary .add) acc) ty (m + pieces.length * n) := by
  induction pieces with
  | nil =>
      intro acc m hacc _
      rwa [List.length_nil, Nat.zero_mul, Nat.add_zero]
  | cons piece pieces ih =>
      intro acc m hacc hpieces
      obtain ⟨hpiece, hrest⟩ := List.forall_mem_cons.mp hpieces
      have hsum := ih (hacc.add helem hpiece) hrest
      rwa [List.length_cons, Nat.succ_mul, Nat.add_comm (pieces.length * n), ← Nat.add_assoc]

/-- Pieces summed up. -/
theorem sumPieces (helem : ty.elem.isNumeric = true) {pieces : List Expr}
    (hsum : Autograd.sumPieces pieces = some e)
    (hpieces : ∀ piece ∈ pieces, AddsUp A calls values g piece ty n) :
    AddsUp A calls values g e ty (pieces.length * n) := by
  cases pieces with
  | nil => cases hsum
  | cons piece pieces =>
      obtain rfl := Option.some.inj hsum
      obtain ⟨hpiece, hrest⟩ := List.forall_mem_cons.mp hpieces
      have hfold := foldl_add helem hpiece hrest
      rwa [List.length_cons, Nat.succ_mul, Nat.add_comm]

end AddsUp

/-! ## Tiles -/

/-- **The check of a slice**: starts and sizes are added up in 64 bits. -/
theorem inferCallResults_slice_iff {elem : ElementType} {shape size starts : List ℕ}
    {tys : List TensorType} :
    inferCallResults (.slice ⟨elem, size⟩ starts) [⟨elem, shape⟩] = .ok tys ↔
      (shape.length = size.length ∧ starts.length = shape.length ∧ ∀ axis < shape.length,
        usizeAdd (starts.getD axis 0) (size.getD axis 0) ≤ shape.getD axis 0) ∧
      tys = [⟨elem, size⟩] := by
  simp only [inferCallResults, except_bind_eq_ok_iff, expectUnary_eq_ok_iff,
    except_pure_eq_ok_iff, validateSlice_eq_ok_iff_usize]
  constructor
  · rintro ⟨_, ⟨⟩, _, ⟨-, hchecks⟩, rfl⟩
    exact ⟨hchecks, rfl⟩
  · rintro ⟨hchecks, rfl⟩
    exact ⟨_, rfl, (), ⟨rfl, hchecks⟩, rfl⟩

/-- A slice along one axis is accepted if its end is in the axis. -/
theorem inferCallResults_axisSlice_iff {elem : ElementType} {s : List ℕ} {axis start dim : ℕ}
    (hs : UsizeDims s) (haxis : axis < s.length) {tys : List TensorType} :
    inferCallResults (.slice ⟨elem, s.set axis dim⟩ (axisOffsets s.length axis start)) [⟨elem, s⟩] =
        .ok tys ↔
      usizeAdd start dim ≤ s.getD axis 0 ∧ tys = [⟨elem, s.set axis dim⟩] := by
  rw [inferCallResults_slice_iff]
  refine and_congr_left' ⟨fun h => ?_, fun h => ?_⟩
  · have hend := h.2.2 axis haxis
    rwa [getD_axisOffsets haxis, if_pos rfl, getD_set_of_lt haxis, if_pos rfl] at hend
  · refine ⟨List.length_set.symm, length_axisOffsets _ _ _, fun other hother => ?_⟩
    rw [getD_axisOffsets haxis, getD_set_of_lt haxis]
    split_ifs with heq
    · rwa [heq]
    · rw [usizeAdd_of_lt (by rw [Nat.zero_add]; exact hs.getD_lt other), Nat.zero_add]

theorem exists_tileGrad_eq_ok (inputTy : TensorType) :
    ∀ (axes : List (ℕ × ℕ)) (current : Expr) (ty : TensorType),
      ∃ e, tileGrad inputTy axes current ty = .ok e := by
  intro axes
  induction axes with
  | nil => exact fun current _ => ⟨current, rfl⟩
  | cons first axes ih =>
      obtain ⟨axis, multiple⟩ := first
      intro current ty
      rw [tileGrad]
      by_cases hone : multiple ≤ 1
      · rw [if_pos hone]
        exact ih current ty
      · rw [if_neg hone]
        obtain ⟨sum, hsum⟩ := exists_sumPieces (tileSlices current ty.rank
          ⟨ty.elem, ty.shape.set axis (inputTy.dim axis)⟩ axis (inputTy.dim axis) multiple)
          (by simp [tileSlices]; omega)
        simp only [hsum]
        exact ih sum _

/-- A slice of every copy. -/
theorem mem_tileSlices {current : Expr} {rank axis size multiple : ℕ} {sliceTy : TensorType}
    {piece : Expr} :
    piece ∈ tileSlices current rank sliceTy axis size multiple ↔
      ∃ k < multiple, call (.slice sliceTy (axisOffsets rank axis (usizeMul k size))) [current] =
        piece := by
  simp [tileSlices, axisOffsets]

/-- Copies are added up if what they are cut from has a value. -/
theorem hasValue_of_tileGrad {inputTy : TensorType} {e : Expr} :
    ∀ {axes : List (ℕ × ℕ)} {current : Expr} {ty : TensorType},
      tileGrad inputTy axes current ty = .ok e → HasValue A calls values e →
      HasValue A calls values current := by
  intro axes
  induction axes with
  | nil =>
      intro current ty h hvalue
      obtain rfl := Except.ok.inj h
      exact hvalue
  | cons first axes ih =>
      obtain ⟨axis, multiple⟩ := first
      intro current ty h hvalue
      rw [tileGrad] at h
      split_ifs at h with hone
      · exact ih h hvalue
      · dsimp only at h
        split at h
        · next sum hsum =>
          have hpieces := hasValue_of_sumPieces hsum (ih h hvalue)
          exact hasValue_of_call rfl (hpieces _ (mem_tileSlices.mpr ⟨0, by omega, rfl⟩))
        · cases h

/-- **The gradient of a tile** has a value if all copies lie in the tiled axes, and then
adds up all of them. -/
theorem tileGrad_addsUp {elem : ElementType} {shape : List ℕ} {g : List ℕ → R} {e : Expr}
    (helem : elem.isNumeric = true) (hdims : UsizeDims shape) :
    ∀ {axes : List (ℕ × ℕ)} {current : Expr} {s : List ℕ} {n : ℕ},
      (axes.map Prod.fst).Nodup → UsizeDims s →
      (∀ p ∈ axes, p.1 < s.length ∧ s.getD p.1 0 = usizeMul (shape.getD p.1 0) p.2 ∧ p.2 ≠ 0) →
      AddsUp A calls values g current ⟨elem, s⟩ n →
      tileGrad ⟨elem, shape⟩ axes current ⟨elem, s⟩ = .ok e →
      (HasValue A calls values e → ∀ p ∈ axes, CopyFits (shape.getD p.1 0) p.2) ∧
        ((∀ p ∈ axes, CopyFits (shape.getD p.1 0) p.2) →
          AddsUp A calls values g e
            ⟨elem, setAxes (fun axis _ => shape.getD axis 0) (axes.map Prod.fst) s⟩
            ((axes.map Prod.snd).prod * n)) := by
  intro axes
  induction axes with
  | nil =>
      intro current s n _ _ _ h hok
      obtain rfl := Except.ok.inj hok
      refine ⟨fun _ p hp => absurd hp List.not_mem_nil, fun _ => ?_⟩
      simpa [setAxes] using h
  | cons first axes ih =>
      obtain ⟨axis, multiple⟩ := first
      intro current s n hnodup hs haxes h hok
      obtain ⟨hfirst, hnext⟩ := List.nodup_cons.mp hnodup
      obtain ⟨⟨haxis, hdim, hmultiple⟩, hrest⟩ := List.forall_mem_cons.mp haxes
      simp only [List.map_cons, setAxes_cons, List.prod_cons, List.forall_mem_cons]
      rw [tileGrad] at hok
      split_ifs at hok with hone
      · -- one copy: the axis is skipped
        obtain rfl : multiple = 1 := by omega
        have hlt := hdims.getD_lt axis
        have hsame : usizeMul (shape.getD axis 0) 1 = shape.getD axis 0 := by
          rw [usizeMul_of_lt (by omega), Nat.mul_one]
        rw [hsame] at hdim
        have hfits : CopyFits (shape.getD axis 0) 1 := by
          intro k hk
          obtain rfl : k = 0 := by omega
          rw [hsame, usizeMul_of_lt (by omega), usizeAdd_of_lt (by omega)]
          omega
        rw [← hdim, set_getD_self, Nat.one_mul]
        obtain ⟨hvalue, hadds⟩ := ih hnext hs hrest h hok
        exact ⟨fun he => ⟨hdim ▸ hfits, hvalue he⟩, fun hall => hadds hall.2⟩
      · dsimp only at hok
        split at hok
        · next sum hsum =>
          have hpieces : CopyFits (shape.getD axis 0) multiple →
              ∀ piece ∈ tileSlices current s.length ⟨elem, s.set axis (shape.getD axis 0)⟩ axis
                (shape.getD axis 0) multiple,
                AddsUp A calls values g piece ⟨elem, s.set axis (shape.getD axis 0)⟩ n := by
            intro hfits piece hpiece
            obtain ⟨k, hk, rfl⟩ := mem_tileSlices.mp hpiece
            exact h.movement
              ((inferCallResults_axisSlice_iff hs haxis).mpr ⟨hdim ▸ hfits k hk, rfl⟩) rfl
              (fun _ _ heq => by cases heq) fun i => ⟨_, rfl⟩
          have hnextAxes : ∀ p ∈ axes, p.1 < (s.set axis (shape.getD axis 0)).length ∧
              (s.set axis (shape.getD axis 0)).getD p.1 0 = usizeMul (shape.getD p.1 0) p.2 ∧
                p.2 ≠ 0 := by
            intro p hp
            obtain ⟨hlt, hpdim, hp0⟩ := hrest p hp
            have hne : p.1 ≠ axis := fun heq => hfirst (List.mem_map.mpr ⟨p, hp, heq⟩)
            refine ⟨by rwa [List.length_set], ?_, hp0⟩
            rw [getD_set_of_lt haxis, if_neg hne, hpdim]
          have hsumAdds : CopyFits (shape.getD axis 0) multiple →
              AddsUp A calls values g sum ⟨elem, s.set axis (shape.getD axis 0)⟩
                (multiple * n) := by
            intro hfits
            have hadds := AddsUp.sumPieces helem hsum (hpieces hfits)
            rwa [tileSlices, List.length_map, List.length_range] at hadds
          have hthen := fun hfits => ih hnext (hs.set axis (hdims.getD_lt axis)) hnextAxes
            (hsumAdds hfits) hok
          constructor
          · intro he
            have hslices := hasValue_of_sumPieces hsum (hasValue_of_tileGrad hok he)
            have hfits : CopyFits (shape.getD axis 0) multiple := by
              intro k hk
              obtain ⟨t, ht⟩ := hslices _ (mem_tileSlices.mpr ⟨k, hk, rfl⟩)
              obtain ⟨t', tys, ht', htype⟩ := exists_of_evalTensor_call rfl ht
              obtain ⟨t'', ht'', hty, -⟩ := h
              obtain rfl := Option.some.inj (ht'.symm.trans ht'')
              rw [hty] at htype
              rw [← hdim]
              exact ((inferCallResults_axisSlice_iff hs haxis).mp htype).1
            exact ⟨hfits, (hthen hfits).1 he⟩
          · rintro ⟨hfits, hall⟩
            have hadds := (hthen hfits).2 hall
            rwa [← Nat.mul_assoc, Nat.mul_comm _ multiple] at hadds
        · cases hok

end Values

/-! ## What the rules say of sizes that wrap -/

section Rules

variable {elem : ElementType} {shape size : List ℕ}

/-- **The check of a pad.** -/
theorem inferCallResults_pad_iff {lows : List ℕ} {tys : List TensorType} :
    inferCallResults (.pad ⟨elem, size⟩ lows) [⟨elem, shape⟩] = .ok tys ↔
      (shape.length = size.length ∧ lows.length = shape.length ∧ ∀ axis < shape.length,
        usizeAdd (shape.getD axis 0) (lows.getD axis 0) ≤ size.getD axis 0) ∧
      tys = [⟨elem, size⟩] := by
  simp only [inferCallResults, except_bind_eq_ok_iff, expectUnary_eq_ok_iff,
    except_pure_eq_ok_iff, validatePad_eq_ok_iff_usize]
  constructor
  · rintro ⟨_, ⟨⟩, _, ⟨-, hchecks⟩, rfl⟩
    exact ⟨hchecks, rfl⟩
  · rintro ⟨hchecks, rfl⟩
    exact ⟨_, rfl, (), ⟨rfl, hchecks⟩, rfl⟩

/-- **The check of a reshape**: elements are counted in 64 bits. -/
theorem inferCallResults_reshape_iff {tys : List TensorType} :
    inferCallResults (.reshape ⟨elem, size⟩) [⟨elem, shape⟩] = .ok tys ↔
      shape.prod % 2 ^ 64 = size.prod % 2 ^ 64 ∧ tys = [⟨elem, size⟩] := by
  simp only [inferCallResults, validateReshape, except_bind_eq_ok_iff, expectUnary_eq_ok_iff,
    except_pure_eq_ok_iff, failIf_eq_ok_iff, exists_const, bne_eq_false_iff_eq, elementCount,
    usizeProduct_eq]
  constructor
  · rintro ⟨_, ⟨⟩, ⟨-, hcount⟩, rfl⟩
    exact ⟨hcount, rfl⟩
  · rintro ⟨hcount, rfl⟩
    exact ⟨_, rfl, ⟨rfl, hcount⟩, rfl⟩

/-- The product of the sizes of a tile is the true one if no size wraps only. -/
theorem fits_of_prod_zipWith_usizeMul :
    ∀ {shape multiples : List ℕ}, multiples.length = shape.length → 0 ∉ shape →
      0 ∉ multiples → (List.zipWith usizeMul shape multiples).prod = shape.prod * multiples.prod →
      ∀ axis < shape.length, shape.getD axis 0 * multiples.getD axis 0 < 2 ^ 64 := by
  -- products that wrap are too small
  have hle : ∀ a b : ℕ, usizeMul a b ≤ a * b := fun a b => Nat.mod_le _ _
  have hprod : ∀ {shape multiples : List ℕ}, multiples.length = shape.length →
      (List.zipWith usizeMul shape multiples).prod ≤ shape.prod * multiples.prod := by
    intro shape
    induction shape with
    | nil =>
        intro multiples hlen
        obtain rfl := List.length_eq_zero_iff.mp hlen
        simp
    | cons dim shape ih =>
        intro multiples hlen
        obtain ⟨multiple, multiples, rfl⟩ := List.exists_cons_of_length_eq_add_one hlen
        simp only [List.zipWith_cons_cons, List.prod_cons]
        calc usizeMul dim multiple * (List.zipWith usizeMul shape multiples).prod
            ≤ dim * multiple * (shape.prod * multiples.prod) :=
              Nat.mul_le_mul (hle _ _) (ih (Nat.succ.inj hlen))
          _ = dim * shape.prod * (multiple * multiples.prod) := by ring
  intro shape
  induction shape with
  | nil => exact fun _ _ _ _ axis haxis => absurd haxis (Nat.not_lt_zero axis)
  | cons dim shape ih =>
      intro multiples hlen hshape hmultiples heq
      obtain ⟨multiple, multiples, rfl⟩ := List.exists_cons_of_length_eq_add_one hlen
      have hlen : multiples.length = shape.length := Nat.succ.inj hlen
      simp only [List.mem_cons, not_or] at hshape hmultiples
      simp only [List.zipWith_cons_cons, List.prod_cons] at heq
      have hpos : 0 < dim * multiple * (shape.prod * multiples.prod) := by
        have hshapePos := List.prod_pos fun d hd =>
          Nat.pos_of_ne_zero (ne_of_mem_of_not_mem hd hshape.2)
        have hmultiplesPos := List.prod_pos fun m hm =>
          Nat.pos_of_ne_zero (ne_of_mem_of_not_mem hm hmultiples.2)
        have hdim := Nat.pos_of_ne_zero (Ne.symm hshape.1)
        have hmultiple := Nat.pos_of_ne_zero (Ne.symm hmultiples.1)
        positivity
      have heq' : usizeMul dim multiple * (List.zipWith usizeMul shape multiples).prod =
          dim * multiple * (shape.prod * multiples.prod) := by rw [heq]; ring
      have hparts := (mul_eq_mul_iff_eq_and_eq_of_pos (hle dim multiple) (hprod hlen)
        (Nat.pos_of_mul_pos_right (heq' ▸ hpos)) (Nat.pos_of_mul_pos_left hpos)).mp heq'
      intro axis haxis
      cases axis with
      | zero =>
          show dim * multiple < 2 ^ 64
          rw [← hparts.1]
          exact Nat.mod_lt _ (by norm_num [usizeSize])
      | succ axis =>
          exact ih hlen hshape.2 hmultiples.2 hparts.2 axis (Nat.lt_of_succ_lt_succ haxis)

/-- A shape without zeros has as many elements for one size of an axis only. -/
theorem eq_of_prod_set {shape : List ℕ} {axis a b : ℕ} (haxis : axis < shape.length)
    (hshape : 0 ∉ shape) (h : (shape.set axis a).prod = (shape.set axis b).prod) : a = b := by
  have hpos : ∀ dims : List ℕ, dims ⊆ shape → 0 < dims.prod := fun dims hdims =>
    List.prod_pos fun d hd => Nat.pos_of_ne_zero (ne_of_mem_of_not_mem (hdims hd) hshape)
  rw [List.prod_set, List.prod_set, if_pos haxis, if_pos haxis] at h
  exact Nat.eq_of_mul_eq_mul_left (hpos _ (List.take_subset _ _))
    (Nat.eq_of_mul_eq_mul_right (hpos _ (List.drop_subset _ _)) h)

end Rules

/-! ## Where the sizes have to fit -/

section Necessary

variable {R : Type u} [CommRing R] {env : String → Option TensorType} {node : Node} {op : CallOp}
  {args : List Expr} {tys : List TensorType} {arg : Expr} {ty : TensorType} {elem : ElementType}
  {shape size : List ℕ}

/-- What is passed to a flattened call can have a value. -/
theorem exists_evaluates_of_exprTy (A : Arithmetic R) (calls : Calls (Tensor R))
    (h : exprTy env arg = .ok ty) :
    ∃ x, Evaluates A calls (fun name => (env name).map fun ty => ⟨ty, fun _ => 0⟩) arg ty x := by
  cases arg with
  | var name =>
      rw [exprTy] at h
      cases hname : env name with
      | none =>
          rw [hname] at h
          cases h
      | some ty' =>
          rw [hname] at h
          obtain rfl := Except.ok.inj h
          refine ⟨fun _ => 0, ⟨ty', fun _ => 0⟩, ?_, rfl, fun _ _ => rfl⟩
          rw [evalTensor_var, hname]
          rfl
  | const text elem =>
      obtain rfl := Except.ok.inj h
      exact ⟨_, Evaluates.const A calls _ text elem⟩
  | _ => cases h

/-- Transposes for an incoming gradient with any entries, out of bounds too. -/
theorem GradientsTranspose.exists_grads (h : GradientsTranspose R env node op args tys)
    (hargs : List.Forall₂ (fun arg ty => exprTy env arg = .ok ty) args tys) (g : List ℕ → R) :
    ∃ (A : Arithmetic R) (calls : Calls (Tensor R)) (values : Env (Tensor R)) (grad : Expr),
      evalTensor A.interp calls values grad = some ⟨node.ty, g⟩ ∧
      ∃ grads : List Expr, ∃ ys : ℕ → List ℕ → R,
        reverseCall env node op args grad = .ok (args.zip grads) ∧ grads.length = args.length ∧
        (∀ k < tys.length,
          Evaluates A calls values (argAt grads k) (tys.getD k default) (ys k)) ∧
        ∀ xs : List (List ℕ → R), inner node.ty.shape (movedArray op tys xs 0) g =
          ∑ k ∈ Finset.range tys.length,
            inner (tys.getD k default).shape (xs.getD k fun _ => 0) (ys k) := by
  have hgrad : evalTensor (Arithmetic.interp ⟨fun _ _ => 0, fun _ _ _ => 0, fun _ _ _ _ => 0⟩)
      (fun _ _ => some [⟨node.ty, g⟩]) (fun name => (env name).map fun ty => ⟨ty, fun _ => 0⟩)
      (.call (.graph "g") []) = some (⟨node.ty, g⟩ : Tensor R) := rfl
  exact ⟨_, _, _, _, hgrad, h _ _ _ _ g ⟨_, hgrad, rfl, fun _ _ => rfl⟩
    (hargs.imp fun _ _ => exists_evaluates_of_exprTy _ _)⟩

theorem GradientsTranspose.exists_grad (h : GradientsTranspose R env node op [arg] [ty])
    (harg : exprTy env arg = .ok ty) (g : List ℕ → R) :
    ∃ (A : Arithmetic R) (calls : Calls (Tensor R)) (values : Env (Tensor R)) (grad e : Expr)
      (y : List ℕ → R), evalTensor A.interp calls values grad = some ⟨node.ty, g⟩ ∧
        reverseCall env node op [arg] grad = .ok [(arg, e)] ∧ Evaluates A calls values e ty y ∧
          ∀ x, inner node.ty.shape (movedArray op [ty] [x] 0) g = inner ty.shape x y := by
  obtain ⟨A, calls, values, grad, hgrad, grads, ys, hreverse, hlen, hys, hinner⟩ :=
    h.exists_grads (.cons harg .nil) g
  obtain ⟨e, rfl⟩ := List.length_eq_one_iff.mp hlen
  refine ⟨A, calls, values, grad, e, ys 0, hgrad, hreverse, hys 0 Nat.one_pos, fun x => ?_⟩
  have hx := hinner [x]
  rwa [List.length_singleton, Finset.sum_range_one] at hx

/-- One outside of bounds. -/
def outsideOf (R : Type u) [CommRing R] (shape i : List ℕ) : R := if InBounds i shape then 0 else 1

theorem inner_outsideOf_left (y : List ℕ → R) : inner shape (outsideOf R shape) y = 0 :=
  Finset.sum_eq_zero fun i hi => by rw [outsideOf, if_pos (mem_box.mp hi), zero_mul]

theorem inner_outsideOf_right (x : List ℕ → R) : inner shape x (outsideOf R shape) = 0 :=
  Finset.sum_eq_zero fun i hi => by rw [outsideOf, if_pos (mem_box.mp hi), mul_zero]

/-- A window whose end wraps has positions outside. -/
theorem sum_outsideOf_ne_zero [CharZero R] {offsets sizes : List ℕ}
    (hlen : offsets.length = sizes.length) (hrank : sizes.length = shape.length)
    (hdims : UsizeDims shape) (hpos : 0 ∉ sizes) {axis : ℕ} (haxis : axis < sizes.length)
    (hwrap : 2 ^ 64 ≤ offsets.getD axis 0 + sizes.getD axis 0) :
    ∑ i ∈ box sizes, outsideOf R shape (shiftBy offsets i) ≠ 0 := by
  obtain ⟨last, hlast, hcoord⟩ := exists_last hpos
  have hout : ¬ InBounds (shiftBy offsets last) shape := by
    intro hin
    have hlt := hin.getD_lt (hrank ▸ haxis)
    rw [getD_shiftBy (hlen.trans hlast.length_eq.symm)] at hlt
    have := hdims.getD_lt axis
    have := hcoord axis haxis
    omega
  have hcount : ∑ i ∈ box sizes, outsideOf R shape (shiftBy offsets i) =
      ((box sizes).filter fun i => ¬ InBounds (shiftBy offsets i) shape).card := by
    rw [← Finset.sum_boole]
    exact Finset.sum_congr rfl fun i _ => by rw [outsideOf, ite_not]
  rw [hcount, Nat.cast_ne_zero, Finset.card_ne_zero]
  exact ⟨last, Finset.mem_filter.mpr ⟨mem_box.mpr hlast, hout⟩⟩

/-- A slice whose end wraps reads what no gradient is sent to. -/
theorem sizesFit_of_slice [CharZero R] {starts : List ℕ}
    (h : GradientsTranspose R env node (.slice ⟨elem, size⟩ starts) [arg] [⟨elem, shape⟩])
    (harg : exprTy env arg = .ok ⟨elem, shape⟩) (hresult : node.ty = ⟨elem, size⟩)
    (hlen : starts.length = size.length) (hrank : size.length = shape.length)
    (hdims : UsizeDims shape) (hpos : 0 ∉ size) :
    SizesFit (.slice ⟨elem, size⟩ starts) [⟨elem, shape⟩] := by
  intro axis haxis
  by_contra hwrap
  obtain ⟨A, calls, values, grad, e, y, -, -, -, hinner⟩ := h.exists_grad harg fun _ => 1
  have hbalance := hinner (outsideOf R shape)
  rw [hresult, inner_outsideOf_left] at hbalance
  refine sum_outsideOf_ne_zero (R := R) hlen hrank hdims hpos haxis (not_lt.mp hwrap) ?_
  rw [← hbalance]
  exact Finset.sum_congr rfl fun i _ => (mul_one (outsideOf R shape (shiftBy starts i))).symm

/-- A pad whose end wraps gets a gradient from outside. -/
theorem sizesFit_of_pad [CharZero R] {lows : List ℕ}
    (h : GradientsTranspose R env node (.pad ⟨elem, size⟩ lows) [arg] [⟨elem, shape⟩])
    (harg : exprTy env arg = .ok ⟨elem, shape⟩) (hresult : node.ty = ⟨elem, size⟩)
    (hstops : callStopsGradient (.pad ⟨elem, size⟩ lows) node.ty = false)
    (hok : inferCallResults (.pad ⟨elem, size⟩ lows) [⟨elem, shape⟩] = .ok [⟨elem, size⟩])
    (hdims : UsizeDims size) (hpos : 0 ∉ shape) :
    SizesFit (.pad ⟨elem, size⟩ lows) [⟨elem, shape⟩] := by
  obtain ⟨⟨hrank, hlen, hends⟩, -⟩ := inferCallResults_pad_iff.mp hok
  intro axis haxis
  by_contra hwrap
  obtain ⟨A, calls, values, grad, e, y, hgrad, hreverse, hy, hinner⟩ :=
    h.exists_grad harg (outsideOf R size)
  rw [reverseCall_pad hstops harg] at hreverse
  obtain rfl : call (.slice ⟨elem, shape⟩ lows) [grad] = e := by simpa using hreverse
  rw [hresult] at hgrad hinner
  -- the slice of the gradient
  have hslice : inferCallResults (.slice ⟨elem, shape⟩ lows) [⟨elem, size⟩] =
      .ok [⟨elem, shape⟩] := by
    refine inferCallResults_slice_iff.mpr ⟨⟨hrank.symm, hlen.trans hrank, fun other hother => ?_⟩,
      rfl⟩
    have hend := hends other (hrank ▸ hother)
    rwa [usizeAdd, Nat.add_comm] at hend
  obtain ⟨t, ht, -, hentry⟩ := hy
  obtain rfl := Option.some.inj ((evalTensor_call_unary rfl hslice hgrad).symm.trans ht)
  have hbalance := hinner fun _ => 1
  rw [inner_outsideOf_right] at hbalance
  have haxis : axis < size.length := haxis
  refine sum_outsideOf_ne_zero (R := R) hlen hrank hdims hpos (hrank ▸ haxis)
    (by rw [Nat.add_comm]; exact not_lt.mp hwrap) ?_
  rw [hbalance]
  refine Finset.sum_congr rfl fun j hj => ?_
  rw [one_mul, ← hentry j (mem_box.mp hj)]
  rfl

/-- A concatenation whose axis wraps is too short for the gradient of its first operand. -/
theorem sizesFit_of_concat {axis : ℕ} {lhs rhs : Expr} {lhsTy rhsTy : TensorType}
    (h : GradientsTranspose R env node (.concat axis) [lhs, rhs] [lhsTy, rhsTy])
    (hlhs : exprTy env lhs = .ok lhsTy) (hrhs : exprTy env rhs = .ok rhsTy)
    (hstops : callStopsGradient (.concat axis) node.ty = false)
    (haxis : axis < lhsTy.rank) (hresult : node.ty =
      ⟨lhsTy.elem, lhsTy.shape.set axis (usizeAdd (lhsTy.dim axis) (rhsTy.dim axis))⟩)
    (hdims : UsizeDims lhsTy.shape) (hdims' : UsizeDims rhsTy.shape) :
    SizesFit (.concat axis) [lhsTy, rhsTy] := by
  obtain ⟨A, calls, values, grad, hgrad, grads, ys, hreverse, hlen, hys, -⟩ :=
    h.exists_grads (.cons hlhs (.cons hrhs .nil)) fun _ => 0
  rw [reverseCall_concat hstops hlhs hrhs] at hreverse
  obtain ⟨a, b, rfl⟩ := List.length_eq_two.mp hlen
  obtain rfl : call (.slice lhsTy (List.replicate lhsTy.rank 0)) [grad] = a :=
    congrArg Prod.snd (List.cons.inj (Except.ok.inj hreverse)).1
  obtain ⟨t, ht, -⟩ := hys 0 Nat.two_pos
  obtain ⟨t', tys, ht', htype⟩ := exists_of_evalTensor_call rfl ht
  obtain rfl := Option.some.inj (ht'.symm.trans hgrad)
  obtain ⟨elem, shape⟩ := lhsTy
  rw [hresult] at htype
  have haxis : axis < shape.length := haxis
  have hend := (inferCallResults_slice_iff.mp htype).1.2.2 axis (by rwa [List.length_set])
  have hlt : shape.getD axis 0 < 2 ^ 64 := hdims.getD_lt axis
  have hlt' : rhsTy.dim axis < 2 ^ 64 := hdims'.getD_lt axis
  have hzero : (List.replicate (TensorType.rank ⟨elem, shape⟩) 0).getD axis 0 = 0 := by
    simp [List.getD_eq_getElem?_getD, List.getElem?_replicate]
    split <;> rfl
  rw [hzero, getD_set_of_lt haxis, if_pos rfl, usizeAdd_of_lt (by omega), Nat.zero_add] at hend
  show shape.getD axis 0 + rhsTy.dim axis < 2 ^ 64
  have hsum : usizeAdd (shape.getD axis 0) (rhsTy.dim axis) =
      (shape.getD axis 0 + rhsTy.dim axis) % 2 ^ 64 := rfl
  have hend : shape.getD axis 0 ≤ usizeAdd (shape.getD axis 0) (rhsTy.dim axis) := hend
  omega

/-- **Counting.**  The transpose of a movement without gaps, on ones, has as many
elements as copies of the operand are added up. -/
theorem GradientsTranspose.prod_eq [CharZero R] {n : ℕ}
    (h : GradientsTranspose R env node op [arg] [ty]) (harg : exprTy env arg = .ok ty)
    (hlaw : ∀ i, ∃ j, movementLaw op [ty] 0 i = some (0, j))
    (hadds : ∀ (A : Arithmetic R) (calls : Calls (Tensor R)) (values : Env (Tensor R))
      (grad e : Expr), evalTensor A.interp calls values grad = some ⟨node.ty, fun _ => 1⟩ →
      reverseCall env node op [arg] grad = .ok [(arg, e)] → HasValue A calls values e →
      AddsUp A calls values (fun _ => 1) e ty n) :
    node.ty.shape.prod = ty.shape.prod * n := by
  obtain ⟨A, calls, values, grad, e, y, hgrad, hreverse, hy, hinner⟩ :=
    h.exists_grad harg fun _ => 1
  have hsum := hadds A calls values grad e hgrad hreverse (hasValue_of_evaluates hy)
  have hones : inner node.ty.shape (movedArray op [ty] [fun _ => 1] 0) (fun _ => 1) =
      inner node.ty.shape (fun _ => 1) (fun _ => (1 : R)) := by
    refine inner_congr (fun i _ => ?_) fun _ _ => rfl
    obtain ⟨j, hj⟩ := hlaw i
    rw [movedArray_of_law hj]
    rfl
  have hcopies : inner ty.shape (fun _ => 1) y = inner ty.shape (fun _ => 1) fun _ => (n : R) :=
    inner_congr (fun _ _ => rfl) fun i hi => by
      rw [hsum.entry_eq (fun _ => rfl) hy hi, mul_one]
  have hcount := hinner fun _ => 1
  rw [hones, hcopies, inner_constants, inner_constants, one_mul, one_mul, mul_one] at hcount
  exact_mod_cast hcount

/-- A reshape between shapes with other numbers of elements moves too few or too many. -/
theorem prod_eq_of_reshape [CharZero R]
    (h : GradientsTranspose R env node (.reshape ⟨elem, size⟩) [arg] [⟨elem, shape⟩])
    (harg : exprTy env arg = .ok ⟨elem, shape⟩) (hresult : node.ty = ⟨elem, size⟩)
    (hstops : callStopsGradient (.reshape ⟨elem, size⟩) node.ty = false)
    (hok : inferCallResults (.reshape ⟨elem, size⟩) [⟨elem, shape⟩] = .ok [⟨elem, size⟩]) :
    shape.prod = size.prod := by
  have hback : inferCallResults (.reshape ⟨elem, shape⟩) [⟨elem, size⟩] = .ok [⟨elem, shape⟩] :=
    inferCallResults_reshape_iff.mpr ⟨(inferCallResults_reshape_iff.mp hok).1.symm, rfl⟩
  have hcount := h.prod_eq (n := 1) harg (fun i => ⟨_, rfl⟩) ?_
  · rw [hresult, Nat.mul_one] at hcount
    exact hcount.symm
  · intro A calls values grad e hgrad hreverse _
    rw [reverseCall_reshape hstops harg] at hreverse
    obtain rfl : call (.reshape ⟨elem, shape⟩) [grad] = e := by simpa using hreverse
    rw [hresult] at hgrad
    exact (AddsUp.grad hgrad).movement hback rfl (fun _ _ heq => by cases heq) fun i => ⟨_, rfl⟩

/-- What the rule of `repeat` emits is accepted. -/
theorem AddsUp.repeated {A : Arithmetic R} {calls : Calls (Tensor R)} {values : Env (Tensor R)}
    {g : List ℕ → R} {grad : Expr} {n axis count : ℕ} (helem : elem.isNumeric = true)
    (haxis : axis < shape.length)
    (h : AddsUp A calls values g grad
      ⟨elem, shape.set axis (usizeMul (shape.getD axis 0) count)⟩ n) :
    AddsUp A calls values g (Autograd.call (.sum (.one (axis + 1)))
      [Autograd.call (.reshape (tensor elem (shape.insertIdx (axis + 1) count))) [grad]])
      ⟨elem, shape⟩ (n * count) := by
  have hcount : (shape.set axis (usizeMul (shape.getD axis 0) count)).prod % 2 ^ 64 =
      (shape.insertIdx (axis + 1) count).prod % 2 ^ 64 := by
    rw [prod_insertIdx_succ count haxis, List.prod_set, List.prod_set, if_pos haxis,
      if_pos haxis]
    exact ((Nat.mod_modEq _ _).mul_left _).mul_right _
  have hlen := List.length_insertIdx_of_le_length (a := count)
    (show axis + 1 ≤ shape.length from haxis)
  have hreshaped := h.movement (inferCallResults_reshape_iff.mpr ⟨hcount, rfl⟩) rfl
    (fun _ _ heq => by cases heq) fun i => ⟨_, rfl⟩
  have htype : (⟨elem, (shape.insertIdx (axis + 1) count).eraseIdx (axis + 1)⟩ : TensorType) =
      ⟨elem, shape⟩ := by rw [List.eraseIdx_insertIdx_self]
  have hsum : inferCallResults (.sum (.one (axis + 1)))
      [⟨elem, shape.insertIdx (axis + 1) count⟩] = .ok [_] :=
    inferCallResults_sum helem
      (show axis + 1 < (shape.insertIdx (axis + 1) count).length by omega)
  rw [htype] at hsum
  refine hreshaped.call hsum rfl fun t c ht hc i => ?_
  show ∑ k ∈ Finset.range (t.ty.dim (axis + 1)), t.entry (i.insertIdx (axis + 1) k) = _
  rw [Finset.sum_congr rfl fun k _ => hc _, Finset.sum_const, Finset.card_range, nsmul_eq_mul, ht]
  exact congrArg (fun n : ℕ => (n : R) * c) (getD_insertIdx_self haxis count)

/-- A repeat whose axis wraps has too few elements. -/
theorem sizesFit_of_repeat [CharZero R] {axis count : ℕ}
    (h : GradientsTranspose R env node (.repeat_ axis count) [arg] [⟨elem, shape⟩])
    (harg : exprTy env arg = .ok ⟨elem, shape⟩)
    (hresult : node.ty = ⟨elem, shape.set axis (usizeMul (shape.getD axis 0) count)⟩)
    (hstops : callStopsGradient (.repeat_ axis count) node.ty = false)
    (helem : elem.isNumeric = true) (haxis : axis < shape.length) (hrank : shape.length ≤ 5)
    (hdims : UsizeDims shape) (hpos : 0 ∉ shape) :
    SizesFit (.repeat_ axis count) [⟨elem, shape⟩] := by
  have hdim := hdims.getD_lt axis
  show shape.getD axis 0 * count < 2 ^ 64
  by_cases hzero : count = 0 ∨ shape.getD axis 0 = 0
  · rcases hzero with hzero | hzero
    · rw [hzero, Nat.mul_zero]
      norm_num
    · rw [hzero, Nat.zero_mul]
      norm_num
  by_cases hone : count = 1
  · rwa [hone, Nat.mul_one]
  have hcount := h.prod_eq (n := count) harg (fun i => ⟨_, rfl⟩) ?_
  · have hprod : (shape.insertIdx (axis + 1) count).prod = shape.prod * count := by
      rw [List.prod_insertIdx haxis fun _ _ => Nat.mul_comm _ _, Nat.mul_comm]
    rw [hresult] at hcount
    have hsame := eq_of_prod_set haxis hpos
      (hcount.trans (hprod.symm.trans (prod_insertIdx_succ count haxis)))
    rw [← hsame]
    exact Nat.mod_lt _ (by norm_num [usizeSize])
  · intro A calls values grad e hgrad hreverse _
    have hlen := List.length_insertIdx_of_le_length (a := count)
      (show axis + 1 ≤ shape.length from haxis)
    have hlimit : ¬ (shape.insertIdx (axis + 1) count).length > 6 := by omega
    rw [(reverseCall_repeat hstops harg).trans
      ((if_neg hzero).trans ((if_neg hone).trans (if_neg hlimit)))] at hreverse
    obtain rfl := (Prod.mk.inj (List.singleton_inj.mp (Except.ok.inj hreverse))).2
    rw [hresult] at hgrad
    have hadds := (AddsUp.grad hgrad).repeated helem haxis
    rwa [Nat.one_mul] at hadds

/-- What the rule of `tile` emits, and what it adds up. -/
theorem reverseCall_tile_addsUp {A : Arithmetic R} {calls : Calls (Tensor R)}
    {values : Env (Tensor R)} {g : List ℕ → R} {grad e : Expr} {multiples : List ℕ}
    (hresult : node.ty = ⟨elem, List.zipWith usizeMul shape multiples⟩)
    (hstops : callStopsGradient (.tile multiples) node.ty = false)
    (harg : exprTy env arg = .ok ⟨elem, shape⟩) (helem : elem.isNumeric = true)
    (hlen : multiples.length = shape.length) (hdims : UsizeDims shape) (hzero : 0 ∉ multiples)
    (hgrad : evalTensor A.interp calls values grad = some ⟨node.ty, g⟩)
    (hreverse : reverseCall env node (.tile multiples) [arg] grad = .ok [(arg, e)]) :
    (HasValue A calls values e →
        ∀ axis < shape.length, CopyFits (shape.getD axis 0) (multiples.getD axis 0)) ∧
      ((∀ axis < shape.length, CopyFits (shape.getD axis 0) (multiples.getD axis 0)) →
        AddsUp A calls values g e ⟨elem, shape⟩ multiples.prod) := by
  rw [reverseCall_tile hstops harg, if_neg hzero] at hreverse
  obtain ⟨e', he, hpair⟩ := except_bind_eq_ok_iff.mp hreverse
  obtain rfl := (Prod.mk.inj (List.singleton_inj.mp (Except.ok.inj hpair))).2
  rw [hresult] at he hgrad
  have houtLen : (List.zipWith usizeMul shape multiples).length = shape.length := by
    rw [List.length_zipWith, hlen, min_self]
  have hfst : ((List.range multiples.length).zip multiples).reverse.map Prod.fst =
      (List.range shape.length).reverse := by rw [map_fst_tileAxes, hlen]
  have hsnd : ((List.range multiples.length).zip multiples).reverse.map Prod.snd =
      multiples.reverse := by
    rw [List.map_reverse, List.map_snd_zip (by simp)]
  have hout : UsizeDims (List.zipWith usizeMul shape multiples) := by
    intro dim hdim
    obtain ⟨axis, haxis, rfl⟩ := List.mem_iff_getElem.mp hdim
    rw [List.getElem_zipWith]
    exact Nat.mod_lt _ (by norm_num [usizeSize])
  obtain ⟨hvalue, hadds⟩ := tileGrad_addsUp (g := g) helem hdims
    (by rw [hfst]; exact List.nodup_reverse.mpr List.nodup_range) hout (fun p hp => by
      obtain ⟨hlt, hmultiple⟩ := mem_tileAxes.mp hp
      refine ⟨by omega, ?_, fun hone => hzero (hone ▸ hmultiple ▸ getD_mem hlt)⟩
      rw [getD_zipWith _ hlen.symm (by omega), hmultiple]) (AddsUp.grad hgrad) he
  rw [hfst, setAxes_shape houtLen, hsnd, List.prod_reverse, Nat.mul_one] at hadds
  refine ⟨fun h axis haxis => ?_, fun h => hadds fun p hp => ?_⟩
  · exact hvalue h (axis, multiples.getD axis 0) (mem_tileAxes.mpr ⟨hlen ▸ haxis, rfl⟩)
  · obtain ⟨hlt, hmultiple⟩ := mem_tileAxes.mp hp
    rw [← hmultiple]
    exact h p.1 (hlen ▸ hlt)

/-- A tile whose sizes wrap has too few elements, if it has a gradient at all. -/
theorem fits_of_tile [CharZero R] {multiples : List ℕ}
    (h : GradientsTranspose R env node (.tile multiples) [arg] [⟨elem, shape⟩])
    (harg : exprTy env arg = .ok ⟨elem, shape⟩)
    (hresult : node.ty = ⟨elem, List.zipWith usizeMul shape multiples⟩)
    (hstops : callStopsGradient (.tile multiples) node.ty = false)
    (helem : elem.isNumeric = true) (hlen : multiples.length = shape.length)
    (hdims : UsizeDims shape) : MovementFits (.tile multiples) [⟨elem, shape⟩] := by
  by_cases hzero : 0 ∈ multiples
  · exact .inr (.inl hzero)
  have hcopies : ∀ axis < shape.length, CopyFits (shape.getD axis 0) (multiples.getD axis 0) := by
    obtain ⟨A, calls, values, grad, e, y, hgrad, hreverse, hy, -⟩ := h.exists_grad harg fun _ => 0
    exact (reverseCall_tile_addsUp hresult hstops harg helem hlen hdims hzero hgrad hreverse).1
      (hasValue_of_evaluates hy)
  by_cases hempty : 0 ∈ shape
  · exact .inr (.inr ⟨hempty, hcopies⟩)
  · have hcount := h.prod_eq harg (fun i => ⟨_, rfl⟩) fun A calls values grad e hgrad hreverse _ =>
      (reverseCall_tile_addsUp hresult hstops harg helem hlen hdims hzero hgrad hreverse).2 hcopies
    rw [hresult] at hcount
    exact .inl (fits_of_prod_zipWith_usizeMul hlen hempty hzero hcount)

end Necessary

/-! ## Where nothing is moved -/

section Empty

variable {R : Type u} [CommRing R] {env : String → Option TensorType} {node : Node} {op : CallOp}
  {arg : Expr} {ty : TensorType} {elem : ElementType} {shape size : List ℕ}

/-- Both sides of the balance are zero. -/
theorem gradientsTranspose_of_zero
    (h : ∀ (A : Arithmetic R) (calls : Calls (Tensor R)) (values : Env (Tensor R)) (grad : Expr)
      (g x : List ℕ → R), Evaluates A calls values grad node.ty g →
      Evaluates A calls values arg ty x →
      ∃ e y, reverseCall env node op [arg] grad = .ok [(arg, e)] ∧ Evaluates A calls values e ty y ∧
        (∀ xs, inner node.ty.shape (movedArray op [ty] xs 0) g = 0) ∧
          ∀ x', inner ty.shape x' y = 0) :
    GradientsTranspose R env node op [arg] [ty] := by
  intro A calls values grad g hgrad hargs
  obtain ⟨x, hx⟩ := (List.forall₂_cons.mp hargs).1
  obtain ⟨e, y, hreverse, he, hmoved, hy⟩ := h A calls values grad g x hgrad hx
  refine ⟨[e], fun _ => y, hreverse, rfl, fun k hk => ?_, fun xs => ?_⟩
  · obtain rfl : k = 0 := Nat.lt_one_iff.mp hk
    exact he
  · rw [hmoved, List.length_singleton, Finset.sum_range_one]
    exact (hy _).symm

/-- A pad holds nothing of an operand without elements. -/
theorem movementLaw_pad_empty {lows : List ℕ} (hempty : 0 ∈ shape) (i : List ℕ) :
    movementLaw (.pad ⟨elem, size⟩ lows) [⟨elem, shape⟩] 0 i = none := by
  have hnone : window lows shape i = none :=
    if_neg fun h => not_inBounds_of_zero_mem hempty _ h.2
  show (window lows shape i).map _ = none
  rw [hnone]
  rfl

theorem gradientsTranspose_slice_empty {starts : List ℕ}
    (harg : exprTy env arg = .ok ⟨elem, shape⟩) (hresult : node.ty = ⟨elem, size⟩)
    (hstops : callStopsGradient (.slice ⟨elem, size⟩ starts) node.ty = false)
    (hok : inferCallResults (.slice ⟨elem, size⟩ starts) [⟨elem, shape⟩] = .ok [⟨elem, size⟩])
    (hempty : 0 ∈ size) :
    GradientsTranspose R env node (.slice ⟨elem, size⟩ starts) [arg] [⟨elem, shape⟩] := by
  obtain ⟨⟨hrank, hlen, hends⟩, -⟩ := inferCallResults_slice_iff.mp hok
  have hpad : inferCallResults (.pad ⟨elem, shape⟩ starts) [⟨elem, size⟩] =
      .ok [⟨elem, shape⟩] := by
    refine inferCallResults_pad_iff.mpr ⟨⟨hrank.symm, hlen.trans hrank, fun axis haxis => ?_⟩, rfl⟩
    have hend := hends axis (hrank ▸ haxis)
    rwa [usizeAdd, Nat.add_comm] at hend
  refine gradientsTranspose_of_zero fun A calls values grad g x hgrad _ =>
    ⟨_, fun _ => 0, reverseCall_slice hstops harg, ?_, fun xs => ?_, inner_zero_right⟩
  · rw [hresult] at hgrad
    refine hgrad.call_unary hpad rfl fun t ht _ i _ => ?_
    have hsplit : ∀ axis sections, CallOp.pad ⟨elem, shape⟩ starts ≠ .split axis sections :=
      fun _ _ heq => by cases heq
    rw [A.callEntry_of_movesData rfl hsplit, List.map_singleton, ht]
    exact movedArray_of_padding (movementLaw_pad_empty hempty i)
  · rw [hresult]
    exact inner_of_zero_mem hempty _ g

theorem gradientsTranspose_pad_empty {lows : List ℕ}
    (harg : exprTy env arg = .ok ⟨elem, shape⟩) (hresult : node.ty = ⟨elem, size⟩)
    (hstops : callStopsGradient (.pad ⟨elem, size⟩ lows) node.ty = false)
    (hok : inferCallResults (.pad ⟨elem, size⟩ lows) [⟨elem, shape⟩] = .ok [⟨elem, size⟩])
    (hempty : 0 ∈ shape) :
    GradientsTranspose R env node (.pad ⟨elem, size⟩ lows) [arg] [⟨elem, shape⟩] := by
  obtain ⟨⟨hrank, hlen, hends⟩, -⟩ := inferCallResults_pad_iff.mp hok
  have hslice : inferCallResults (.slice ⟨elem, shape⟩ lows) [⟨elem, size⟩] =
      .ok [⟨elem, shape⟩] := by
    refine inferCallResults_slice_iff.mpr ⟨⟨hrank.symm, hlen.trans hrank, fun axis haxis => ?_⟩,
      rfl⟩
    have hend := hends axis (hrank ▸ haxis)
    rwa [usizeAdd, Nat.add_comm] at hend
  refine gradientsTranspose_of_zero fun A calls values grad g x hgrad _ => ?_
  obtain ⟨t, ht, hty, -⟩ := hgrad
  rw [← hresult, ← hty] at hslice
  refine ⟨_, _, reverseCall_pad hstops harg,
    ⟨_, evalTensor_call_unary rfl hslice ht, rfl, fun _ _ => rfl⟩, fun xs => ?_,
    fun x' => inner_of_zero_mem hempty x' _⟩
  refine Finset.sum_eq_zero fun i _ => ?_
  rw [movedArray_of_padding (movementLaw_pad_empty hempty i), zero_mul]

theorem gradientsTranspose_repeat_empty {axis count : ℕ}
    (harg : exprTy env arg = .ok ⟨elem, shape⟩)
    (hresult : node.ty = ⟨elem, shape.set axis (usizeMul (shape.getD axis 0) count)⟩)
    (hstops : callStopsGradient (.repeat_ axis count) node.ty = false)
    (helem : elem.isNumeric = true) (haxis : axis < shape.length) (hrank : shape.length ≤ 5)
    (hdims : UsizeDims shape) (hwrap : ¬ shape.getD axis 0 * count < 2 ^ 64)
    (hempty : 0 ∈ shape) :
    GradientsTranspose R env node (.repeat_ axis count) [arg] [⟨elem, shape⟩] := by
  have hdim := hdims.getD_lt axis
  have hzero : ¬ (count = 0 ∨ shape.getD axis 0 = 0) := by
    rintro (hzero | hzero)
    · rw [hzero, Nat.mul_zero] at hwrap
      exact hwrap (by norm_num)
    · rw [hzero, Nat.zero_mul] at hwrap
      exact hwrap (by norm_num)
  have hone : ¬ count = 1 := by
    rintro rfl
    rw [Nat.mul_one] at hwrap
    exact hwrap hdim
  have hlen := List.length_insertIdx_of_le_length (a := count)
    (show axis + 1 ≤ shape.length from haxis)
  have hlimit : ¬ (shape.insertIdx (axis + 1) count).length > 6 := by omega
  -- another axis has no positions
  have hresultEmpty : 0 ∈ shape.set axis (usizeMul (shape.getD axis 0) count) := by
    obtain ⟨other, hother, hget⟩ := List.mem_iff_getElem.mp hempty
    have hne : other ≠ axis := by
      rintro rfl
      exact hzero (.inr ((List.getD_eq_getElem _ _ hother).trans hget))
    have hmem := getD_mem (show other <
      (shape.set axis (usizeMul (shape.getD axis 0) count)).length by rwa [List.length_set])
    rwa [getD_set_of_lt haxis, if_neg hne, List.getD_eq_getElem _ _ hother, hget] at hmem
  refine gradientsTranspose_of_zero fun A calls values grad g x hgrad _ => ?_
  obtain ⟨t, ht, hty, -⟩ := hgrad
  obtain ⟨ty, entry⟩ := t
  obtain rfl : ty = _ := hty.trans hresult
  obtain ⟨y, hy⟩ := ((AddsUp.grad ht).repeated helem haxis).evaluates
  refine ⟨_, y, (reverseCall_repeat hstops harg).trans
    ((if_neg hzero).trans ((if_neg hone).trans (if_neg hlimit))), hy, fun xs => ?_,
    fun x' => inner_of_zero_mem hempty x' y⟩
  rw [hresult]
  exact inner_of_zero_mem hresultEmpty _ g

theorem zero_mem_zipWith_usizeMul {multiples : List ℕ} (hlen : multiples.length = shape.length)
    (h : 0 ∈ shape ∨ 0 ∈ multiples) : 0 ∈ List.zipWith usizeMul shape multiples := by
  have hmem : ∀ axis, axis < shape.length →
      shape.getD axis 0 = 0 ∨ multiples.getD axis 0 = 0 →
        0 ∈ List.zipWith usizeMul shape multiples := by
    intro axis haxis hzero
    have hproduct := getD_mem (show axis <
      (List.zipWith usizeMul shape multiples).length by rw [List.length_zipWith]; omega)
    rw [getD_zipWith _ hlen.symm haxis] at hproduct
    rcases hzero with hzero | hzero
    · rwa [hzero, usizeMul, Nat.zero_mul, Nat.zero_mod] at hproduct
    · rwa [hzero, usizeMul, Nat.mul_zero, Nat.zero_mod] at hproduct
  rcases h with h | h
  all_goals obtain ⟨axis, haxis, hget⟩ := List.mem_iff_getElem.mp h
  · exact hmem axis haxis (.inl ((List.getD_eq_getElem _ _ haxis).trans hget))
  · exact hmem axis (hlen ▸ haxis) (.inr ((List.getD_eq_getElem _ _ haxis).trans hget))

/-- A tile without elements. -/
theorem gradientsTranspose_tile_empty {multiples : List ℕ}
    (harg : exprTy env arg = .ok ⟨elem, shape⟩)
    (hresult : node.ty = ⟨elem, List.zipWith usizeMul shape multiples⟩)
    (hstops : callStopsGradient (.tile multiples) node.ty = false)
    (helem : elem.isNumeric = true) (hlen : multiples.length = shape.length)
    (hdims : UsizeDims shape)
    (hempty : 0 ∈ multiples ∨ 0 ∈ shape ∧
      ∀ axis < shape.length, CopyFits (shape.getD axis 0) (multiples.getD axis 0)) :
    GradientsTranspose R env node (.tile multiples) [arg] [⟨elem, shape⟩] := by
  have hmoved : ∀ (xs : List (List ℕ → R)) (g : List ℕ → R),
      inner node.ty.shape (movedArray (.tile multiples) [⟨elem, shape⟩] xs 0) g = 0 := by
    intro xs g
    rw [hresult]
    exact inner_of_zero_mem
      (zero_mem_zipWith_usizeMul hlen (hempty.symm.imp_left And.left)) _ g
  refine gradientsTranspose_of_zero fun A calls values grad g x hgrad hx => ?_
  by_cases hzero : 0 ∈ multiples
  · refine ⟨_, fun _ => 0, (reverseCall_tile hstops harg).trans (if_pos hzero), hx.zerosLike,
      fun xs => hmoved xs g, inner_zero_right⟩
  · obtain ⟨hshape, hcopies⟩ := hempty.resolve_left hzero
    obtain ⟨e, he⟩ := exists_tileGrad_eq_ok ⟨elem, shape⟩
      ((List.range multiples.length).zip multiples).reverse grad node.ty
    have hreverse : reverseCall env node (.tile multiples) [arg] grad = .ok [(arg, e)] := by
      rw [reverseCall_tile hstops harg, if_neg hzero, he]
      rfl
    obtain ⟨t, ht, hty, -⟩ := hgrad
    obtain ⟨ty, entry⟩ := t
    obtain rfl : ty = _ := hty
    obtain ⟨y, hy⟩ := ((reverseCall_tile_addsUp hresult hstops harg helem hlen hdims hzero ht
      hreverse).2 hcopies).evaluates
    exact ⟨e, y, hreverse, hy, fun xs => hmoved xs g, fun x' => inner_of_zero_mem hshape x' y⟩

end Empty

/-! ## The exact condition -/

section Exact

variable {R : Type u} [CommRing R] {env : String → Option TensorType} {node : Node} {op : CallOp}
  {args : List Expr} {tys : List TensorType} {target resultTy : TensorType}

theorem types_of_slice {starts : List ℕ}
    (hok : inferCallResults (.slice target starts) tys = .ok [resultTy]) :
    ∃ elem shape size, tys = [⟨elem, shape⟩] ∧ target = ⟨elem, size⟩ := by
  simp only [inferCallResults, except_bind_eq_ok_iff, expectUnary_eq_ok_iff,
    validateSlice_eq_ok_iff_usize] at hok
  obtain ⟨⟨elem, shape⟩, rfl, -, ⟨helem, -⟩, -⟩ := hok
  obtain ⟨elem', size⟩ := target
  obtain rfl : elem = elem' := helem
  exact ⟨_, shape, size, rfl, rfl⟩

theorem types_of_pad {lows : List ℕ}
    (hok : inferCallResults (.pad target lows) tys = .ok [resultTy]) :
    ∃ elem shape size, tys = [⟨elem, shape⟩] ∧ target = ⟨elem, size⟩ := by
  simp only [inferCallResults, except_bind_eq_ok_iff, expectUnary_eq_ok_iff,
    validatePad_eq_ok_iff_usize] at hok
  obtain ⟨⟨elem, shape⟩, rfl, -, ⟨helem, -⟩, -⟩ := hok
  obtain ⟨elem', size⟩ := target
  obtain rfl : elem = elem' := helem
  exact ⟨_, shape, size, rfl, rfl⟩

theorem types_of_reshape (hok : inferCallResults (.reshape target) tys = .ok [resultTy]) :
    ∃ elem shape size, tys = [⟨elem, shape⟩] ∧ target = ⟨elem, size⟩ := by
  simp only [inferCallResults, validateReshape, except_bind_eq_ok_iff, expectUnary_eq_ok_iff,
    failIf_eq_ok_iff, bne_eq_false_iff_eq] at hok
  obtain ⟨⟨elem, shape⟩, rfl, -, ⟨-, helem, -⟩, -⟩ := hok
  obtain ⟨elem', size⟩ := target
  obtain rfl : elem = elem' := helem
  exact ⟨_, shape, size, rfl, rfl⟩

theorem types_of_tile {multiples : List ℕ}
    (hok : inferCallResults (.tile multiples) tys = .ok [resultTy]) :
    ∃ elem shape, tys = [⟨elem, shape⟩] ∧ multiples.length = shape.length ∧
      resultTy = ⟨elem, List.zipWith usizeMul shape multiples⟩ := by
  simp only [inferCallResults, tileResultType, except_bind_eq_ok_iff, expectUnary_eq_ok_iff,
    except_pure_eq_ok_iff, failIf_eq_ok_iff, exists_const, bne_eq_false_iff_eq] at hok
  obtain ⟨⟨elem, shape⟩, rfl, ty, ⟨hlen, rfl⟩, hresult⟩ := hok
  exact ⟨elem, shape, rfl, hlen, (List.singleton_inj.mp hresult).symm⟩

theorem types_of_repeat {axis count : ℕ}
    (hok : inferCallResults (.repeat_ axis count) tys = .ok [resultTy]) :
    ∃ elem shape, tys = [⟨elem, shape⟩] ∧ axis < shape.length ∧
      resultTy = ⟨elem, shape.set axis (usizeMul (shape.getD axis 0) count)⟩ := by
  simp only [inferCallResults, repeatResultType, except_bind_eq_ok_iff, expectUnary_eq_ok_iff,
    except_pure_eq_ok_iff] at hok
  obtain ⟨⟨elem, shape⟩, rfl, ty, hrepeat, hresult⟩ := hok
  split_ifs at hrepeat with haxis
  obtain rfl := Except.ok.inj hrepeat
  exact ⟨elem, shape, rfl, haxis, (List.singleton_inj.mp hresult).symm⟩

/-- Over a ring of characteristic zero, rules that emit transposes have sizes that fit. -/
theorem movementFits_of_gradientsTranspose [CharZero R]
    (h : GradientsTranspose R env node op args tys) (hmoves : op.movesData = true)
    (hsplit : ∀ axis sections, op ≠ .split axis sections)
    (hrepeat : ∀ axis count, op = .repeat_ axis count → (headType tys).rank ≤ 5)
    (hargs : List.Forall₂ (fun arg ty => exprTy env arg = .ok ty) args tys)
    (hok : inferCallResults op tys = .ok [node.ty]) (hfloat : node.ty.elem.isFloat = true)
    (hdims : ∀ ty ∈ node.ty :: tys, UsizeDims ty.shape) : MovementFits op tys := by
  have hstops := callStopsGradient_of_movesData hmoves hfloat
  have hnumeric := ElementType.isNumeric_of_isFloat hfloat
  obtain ⟨hresultDims, hdims⟩ := List.forall_mem_cons.mp hdims
  cases op <;> try cases hmoves
  case slice target starts =>
    obtain ⟨elem, shape, size, rfl, rfl⟩ := types_of_slice hok
    obtain ⟨arg, harg, rfl⟩ := exists_args_unary hargs
    obtain ⟨⟨hrank, hlen, -⟩, hresult⟩ := inferCallResults_slice_iff.mp hok
    exact or_iff_not_imp_right.mpr fun hpos => sizesFit_of_slice h harg
      (List.singleton_inj.mp hresult) (hlen.trans hrank) hrank.symm (hdims _ List.mem_cons_self) hpos
  case split axis sections => exact absurd rfl (hsplit _ _)
  case concat axis =>
    simp only [inferCallResults, except_bind_eq_ok_iff, expectBinary_eq_ok_iff,
      except_pure_eq_ok_iff, concatResultType_eq_ok_iff_usize] at hok
    obtain ⟨⟨lhs, rhs⟩, rfl, ty, ⟨-, -, haxis, -, rfl⟩, hresult⟩ := hok
    obtain ⟨l, r, hl, hr, rfl⟩ := exists_args_binary hargs
    exact sizesFit_of_concat h hl hr hstops haxis (List.singleton_inj.mp hresult).symm
      (hdims _ List.mem_cons_self) (hdims _ (List.mem_cons_of_mem _ List.mem_cons_self))
  case tile multiples =>
    obtain ⟨elem, shape, rfl, hlen, hresult⟩ := types_of_tile hok
    obtain ⟨arg, harg, rfl⟩ := exists_args_unary hargs
    rw [hresult] at hnumeric
    exact fits_of_tile h harg hresult hstops hnumeric hlen (hdims _ List.mem_cons_self)
  case repeat_ axis count =>
    obtain ⟨elem, shape, rfl, haxis, hresult⟩ := types_of_repeat hok
    obtain ⟨arg, harg, rfl⟩ := exists_args_unary hargs
    rw [hresult] at hnumeric
    exact or_iff_not_imp_right.mpr fun hpos => sizesFit_of_repeat h harg hresult hstops hnumeric
      haxis (hrepeat _ _ rfl) (hdims _ List.mem_cons_self) hpos
  case pad target lows =>
    obtain ⟨elem, shape, size, rfl, rfl⟩ := types_of_pad hok
    obtain ⟨arg, harg, rfl⟩ := exists_args_unary hargs
    have hresult := List.singleton_inj.mp (inferCallResults_pad_iff.mp hok).2
    rw [hresult] at hok hresultDims
    exact or_iff_not_imp_right.mpr fun hpos =>
      sizesFit_of_pad h harg hresult hstops hok hresultDims hpos
  case reshape target =>
    obtain ⟨elem, shape, size, rfl, rfl⟩ := types_of_reshape hok
    obtain ⟨arg, harg, rfl⟩ := exists_args_unary hargs
    have hresult := List.singleton_inj.mp (inferCallResults_reshape_iff.mp hok).2
    rw [hresult] at hok
    exact prod_eq_of_reshape h harg hresult hstops hok
  all_goals trivial

/-- Rules whose sizes fit emit transposes, over every commutative ring. -/
theorem gradientsTranspose_of_fits (hfit : MovementFits op tys) (hmoves : op.movesData = true)
    (hsplit : ∀ axis sections, op ≠ .split axis sections)
    (hrepeat : ∀ axis count, op = .repeat_ axis count → (headType tys).rank ≤ 5)
    (hargs : List.Forall₂ (fun arg ty => exprTy env arg = .ok ty) args tys)
    (hok : inferCallResults op tys = .ok [node.ty]) (hfloat : node.ty.elem.isFloat = true)
    (hdims : ∀ ty ∈ node.ty :: tys, UsizeDims ty.shape) :
    GradientsTranspose R env node op args tys := by
  have hstops := callStopsGradient_of_movesData hmoves hfloat
  have hnumeric := ElementType.isNumeric_of_isFloat hfloat
  -- where the sizes are those of the operation
  have hsizes : SizesFit op tys → GradientsTranspose R env node op args tys := fun hsizes =>
    gradientsTranspose_of_movementTyped (movementTyped_of_inferCallResults hmoves hok hsizes) hargs
      hfloat hsplit hrepeat hdims
  obtain ⟨-, hoperandDims⟩ := List.forall_mem_cons.mp hdims
  cases op <;> try cases hmoves
  case slice target starts =>
    rcases hfit with hfit | hempty
    · exact hsizes hfit
    · obtain ⟨elem, shape, size, rfl, rfl⟩ := types_of_slice hok
      obtain ⟨arg, harg, rfl⟩ := exists_args_unary hargs
      have hresult := List.singleton_inj.mp (inferCallResults_slice_iff.mp hok).2
      rw [hresult] at hok
      exact gradientsTranspose_slice_empty harg hresult hstops hok hempty
  case tile multiples =>
    rcases hfit with hfit | hempty
    · exact hsizes hfit
    · obtain ⟨elem, shape, rfl, hlen, hresult⟩ := types_of_tile hok
      obtain ⟨arg, harg, rfl⟩ := exists_args_unary hargs
      rw [hresult] at hnumeric
      exact gradientsTranspose_tile_empty harg hresult hstops hnumeric hlen
        (hoperandDims _ List.mem_cons_self) hempty
  case repeat_ axis count =>
    by_cases hwrap : SizesFit (.repeat_ axis count) tys
    · exact hsizes hwrap
    · obtain ⟨elem, shape, rfl, haxis, hresult⟩ := types_of_repeat hok
      obtain ⟨arg, harg, rfl⟩ := exists_args_unary hargs
      rw [hresult] at hnumeric
      exact gradientsTranspose_repeat_empty harg hresult hstops hnumeric haxis (hrepeat _ _ rfl)
        (hoperandDims _ List.mem_cons_self) hwrap (hfit.resolve_left hwrap)
  case pad target lows =>
    rcases hfit with hfit | hempty
    · exact hsizes hfit
    · obtain ⟨elem, shape, size, rfl, rfl⟩ := types_of_pad hok
      obtain ⟨arg, harg, rfl⟩ := exists_args_unary hargs
      have hresult := List.singleton_inj.mp (inferCallResults_pad_iff.mp hok).2
      rw [hresult] at hok
      exact gradientsTranspose_pad_empty harg hresult hstops hok hempty
  case reshape target =>
    obtain ⟨elem, shape, size, rfl, rfl⟩ := types_of_reshape hok
    have htyped : MovementTyped (.reshape ⟨elem, size⟩) [⟨elem, shape⟩] [node.ty] := by
      rw [(inferCallResults_reshape_iff.mp hok).2]
      exact .reshape hfit
    exact gradientsTranspose_of_movementTyped htyped hargs hfloat hsplit hrepeat hdims
  all_goals exact hsizes hfit

end Exact

/-- **The rules of data movement emit transposes over every commutative ring exactly
where the sizes fit.** -/
theorem gradientsTranspose_iff {env : String → Option TensorType} {node : Node} {op : CallOp}
    {args : List Expr} {tys : List TensorType} (hmoves : op.movesData = true)
    (hsplit : ∀ axis sections, op ≠ .split axis sections)
    (hrepeat : ∀ axis count, op = .repeat_ axis count → (headType tys).rank ≤ 5)
    (hargs : List.Forall₂ (fun arg ty => exprTy env arg = .ok ty) args tys)
    (hok : inferCallResults op tys = .ok [node.ty]) (hfloat : node.ty.elem.isFloat = true)
    (hdims : ∀ ty ∈ node.ty :: tys, UsizeDims ty.shape) :
    (∀ (R : Type u) [CommRing R], GradientsTranspose R env node op args tys) ↔
      MovementFits op tys := by
  constructor
  · intro h
    have hzero : CharZero (ULift.{u} ℤ) :=
      ⟨fun m n hcast => Int.natCast_inj.mp (congrArg ULift.down hcast)⟩
    exact movementFits_of_gradientsTranspose (h (ULift.{u} ℤ)) hmoves hsplit hrepeat hargs hok
      hfloat hdims
  · intro hfit R _
    exact gradientsTranspose_of_fits hfit hmoves hsplit hrepeat hargs hok hfloat hdims

/-- Three and two rows, joined. -/
def rowsNode : Node :=
  ⟨"z", .call (.concat 0) [.var "x", .var "y"], ⟨.f32, [5, 4]⟩⟩

theorem gradientsTranspose_rows :
    (∀ (R : Type) [CommRing R], GradientsTranspose R
      (pairEnv ⟨.f32, [3, 4]⟩ ⟨.f32, [2, 4]⟩) rowsNode (.concat 0)
        [.var "x", .var "y"] [⟨.f32, [3, 4]⟩, ⟨.f32, [2, 4]⟩]) ↔
      MovementFits (.concat 0) [⟨.f32, [3, 4]⟩, ⟨.f32, [2, 4]⟩] :=
  gradientsTranspose_iff rfl (fun _ _ heq => by cases heq) (fun _ _ heq => by cases heq)
    (.cons rfl (.cons rfl .nil)) rfl rfl (by decide)

/-- Two operands without elements whose joined dimension wraps to zero. -/
def wrappedNode : Node :=
  ⟨"z", .call (.concat 0) [.var "x", .var "y"], ⟨.f32, [0, 0]⟩⟩

/-- The type rule accepts the operands, but the gradient emitted for the first of
them, a slice of the gradient of the wrapped result, is rejected by its type rule:
it has no value. -/
theorem wrappedConcat_gradient :
    inferCallResults (.concat 0) [⟨.f32, [2 ^ 63, 0]⟩, ⟨.f32, [2 ^ 63, 0]⟩] =
        .ok [wrappedNode.ty] ∧
      ¬ GradientsTranspose ℤ (pairEnv ⟨.f32, [2 ^ 63, 0]⟩ ⟨.f32, [2 ^ 63, 0]⟩) wrappedNode
        (.concat 0) [.var "x", .var "y"] [⟨.f32, [2 ^ 63, 0]⟩, ⟨.f32, [2 ^ 63, 0]⟩] ∧
      ∃ xGrad yGrad, reverseCall (pairEnv ⟨.f32, [2 ^ 63, 0]⟩ ⟨.f32, [2 ^ 63, 0]⟩) wrappedNode
          (.concat 0) [.var "x", .var "y"] (.var "g") =
            .ok [(.var "x", xGrad), (.var "y", yGrad)] ∧
        ∀ (A : Arithmetic ℤ) (calls : Calls (Tensor ℤ)) (values : Env (Tensor ℤ)) (g x : List ℕ → ℤ),
          Evaluates A calls values (.var "g") wrappedNode.ty g →
            ¬ Evaluates A calls values xGrad ⟨.f32, [2 ^ 63, 0]⟩ x := by
  refine ⟨rfl, fun h => ?_, _, _, rfl, fun A calls values g x hg hx => ?_⟩
  · have hfit : 2 ^ 63 + 2 ^ 63 < 2 ^ 64 := sizesFit_of_concat h rfl rfl rfl Nat.two_pos rfl
      (by decide) (by decide)
    exact absurd hfit (by decide)
  obtain ⟨t, ht, hty, -⟩ := hg
  obtain ⟨t', tys, ht', htype⟩ := exists_of_evalTensor_call rfl hx.choose_spec.1
  obtain rfl := Option.some.inj (ht.symm.trans ht')
  rw [hty] at htype
  exact absurd ((inferCallResults_slice_iff.mp htype).1.2.2 0 Nat.two_pos) (by decide)

end Knok.Autograd
