import Mathlib
import Knok.Evaluates
import Knok.Arrays.Promotion
import Knok.Autograd.Reverse

/-!
# Transposes of data movement

The result of a data movement is a sum of reads, one for each operand, along the
index maps of the operands.  The transpose sends the incoming gradient back along
the same maps.  Here the expressions that the reverse rules emit are evaluated:
each gives the gradient sent along the operand's map.

### Design decisions

* **Inverses.**  Most maps have a partial inverse, and the emitted operation reads
  along it (`evaluates_push`).  Only `tile` and `repeat` read an element several
  times; their rules add up the copies one axis at a time.
-/

namespace Knok.Autograd

open Arrays Control

universe u

/-! ## Movements as sums of reads -/

/-- The position of an operand that a position of the result holds. -/
def operandMap (op : CallOp) (tys : List TensorType) (operand : ℕ) : IndexMap := fun i =>
  (movementLaw op tys 0 i).bind fun (k, j) => if k = operand then some j else none

theorem operandMap_eq_some_iff {op : CallOp} {tys : List TensorType} {operand : ℕ} {i j : List ℕ} :
    operandMap op tys operand i = some j ↔ movementLaw op tys 0 i = some (operand, j) := by
  unfold operandMap
  cases movementLaw op tys 0 i with
  | none => simp
  | some p =>
      obtain ⟨k, j'⟩ := p
      by_cases hk : k = operand <;> simp [hk]

section Sums

variable {R : Type u} {op : CallOp} {tys : List TensorType} {ty : TensorType}

theorem mapsBox_operandMap (htyped : MovementTyped op tys [ty]) (operand : ℕ) :
    MapsBox ty.shape (tys.getD operand default).shape (operandMap op tys operand) := by
  intro i hi j hj
  obtain ⟨operandTy, hoperand, hbound⟩ :=
    inBounds_movementLaw htyped rfl hi (operandMap_eq_some_iff.mp hj)
  rw [List.getD_eq_getElem?_getD, hoperand]
  exact hbound

/-- **A movement is the sum of what it reads from each operand.** -/
theorem movedArray_eq_sum [AddCommMonoid R] (htyped : MovementTyped op tys [ty])
    (arrays : List (List ℕ → R)) {i : List ℕ} (hi : InBounds i ty.shape) :
    movedArray op tys arrays 0 i = ∑ k ∈ Finset.range tys.length,
      pull (operandMap op tys k) (arrays.getD k fun _ => 0) i := by
  cases hlaw : movementLaw op tys 0 i with
  | none =>
      rw [movedArray_of_padding hlaw]
      refine (Finset.sum_eq_zero fun k _ => pull_none ?_).symm
      rw [operandMap, hlaw]
      rfl
  | some p =>
      obtain ⟨operand, j⟩ := p
      obtain ⟨operandTy, hoperand, -⟩ := inBounds_movementLaw htyped rfl hi hlaw
      obtain ⟨hlt, -⟩ := List.getElem?_eq_some_iff.mp hoperand
      rw [movedArray_of_law hlaw, Finset.sum_eq_single operand]
      · rw [pull_some (operandMap_eq_some_iff.mpr hlaw)]
      · intro k _ hne
        refine pull_none ?_
        rw [operandMap, hlaw]
        exact if_neg hne.symm
      · exact fun hnot => absurd (Finset.mem_range.mpr hlt) hnot

/-- **The transpose of a movement** sends a gradient back along every operand's
map. -/
theorem inner_movedArray [CommRing R] (htyped : MovementTyped op tys [ty])
    (arrays : List (List ℕ → R)) (g : List ℕ → R) :
    inner ty.shape (movedArray op tys arrays 0) g = ∑ k ∈ Finset.range tys.length,
      inner (tys.getD k default).shape (arrays.getD k fun _ => 0)
        (push ty.shape (operandMap op tys k) g) := by
  calc inner ty.shape (movedArray op tys arrays 0) g
      = ∑ i ∈ box ty.shape, ∑ k ∈ Finset.range tys.length,
          pull (operandMap op tys k) (arrays.getD k fun _ => 0) i * g i := by
        refine Finset.sum_congr rfl fun i hi => ?_
        rw [movedArray_eq_sum htyped arrays (mem_box.mp hi), Finset.sum_mul]
    _ = ∑ k ∈ Finset.range tys.length,
          inner ty.shape (pull (operandMap op tys k) (arrays.getD k fun _ => 0)) g :=
        Finset.sum_comm
    _ = _ := Finset.sum_congr rfl fun k _ => inner_pull (mapsBox_operandMap htyped k) _ g

end Sums

/-! ## Movements that may be left out -/

section Identities

variable {R : Type u} [CommRing R] {A : Arithmetic R} {calls : Calls (Tensor R)}
  {values : Env (Tensor R)} {e : Expr} {elem : ElementType} {shape size : List ℕ}
  {x : List ℕ → R}

theorem evaluates_reshapeIfNeeded {shape size : List ℕ} (hprod : shape.prod = size.prod)
    (h : Evaluates A calls values e ⟨elem, shape⟩ x) :
    Evaluates A calls values (reshapeIfNeeded e ⟨elem, shape⟩ ⟨elem, size⟩) ⟨elem, size⟩
      (reshaped shape size x) := by
  unfold reshapeIfNeeded
  split_ifs with heq
  · obtain rfl : shape = size := congrArg TensorType.shape heq
    exact h.congr fun i hi => (reshaped_self x hi).symm
  · exact h.reshape hprod

theorem evaluates_broadcastIfNeeded (hbroadcast : BroadcastsTo shape size)
    (h : Evaluates A calls values e ⟨elem, shape⟩ x) :
    Evaluates A calls values (broadcastIfNeeded e ⟨elem, shape⟩ ⟨elem, size⟩) ⟨elem, size⟩
      fun i => x (broadcastIndex shape i) := by
  unfold broadcastIfNeeded
  split_ifs with heq
  · obtain rfl : shape = size := congrArg TensorType.shape heq
    exact h.congr fun i hi => (congrArg x (broadcastIndex_self hi)).symm
  · exact h.broadcast hbroadcast

end Identities

/-! ## Reading along an inverse -/

section Inverses

variable {R : Type u} [CommRing R] {A : Arithmetic R} {calls : Calls (Tensor R)}
  {values : Env (Tensor R)} {grad : Expr} {ty operandTy : TensorType} {g : List ℕ → R}

/-- **Reading along an inverse of an operand's map** is sending along the map. -/
theorem evaluates_push (ty : TensorType) (τ : IndexMap) {op : CallOp} {tys : List TensorType}
    {operand : ℕ} {e : Expr}
    (hmaps : MapsBox operandTy.shape ty.shape τ)
    (hinv : ∀ i j, InBounds i ty.shape → InBounds j operandTy.shape →
      (movementLaw op tys 0 i = some (operand, j) ↔ τ j = some i))
    (h : Evaluates A calls values e operandTy (pull τ g)) :
    Evaluates A calls values e operandTy (push ty.shape (operandMap op tys operand) g) := by
  refine h.congr fun j hj => (push_eq_pull (fun i j hi hj => ?_) hmaps g hj).symm
  rw [operandMap_eq_some_iff]
  exact hinv i j hi hj

/-- The law of the emitted operation and the map are inverse to each other. -/
theorem evaluates_push_total (ty : TensorType) (t : List ℕ → List ℕ) {op : CallOp}
    {tys : List TensorType} {s : List ℕ → List ℕ} {e : Expr}
    (hmaps : ∀ j, InBounds j operandTy.shape → InBounds (t j) ty.shape)
    (hlaw : ∀ i, movementLaw op tys 0 i = some (0, s i))
    (hinv : ∀ i j, InBounds i ty.shape → InBounds j operandTy.shape → (s i = j ↔ t j = i))
    (h : Evaluates A calls values e operandTy fun j => g (t j)) :
    Evaluates A calls values e operandTy (push ty.shape (operandMap op tys 0) g) := by
  refine evaluates_push ty (fun j => some (t j)) ?_ ?_ h
  · intro j hj i hi
    cases hi
    exact hmaps j hj
  · intro i j hi hj
    rw [hlaw i, Option.some.injEq, Option.some.injEq, Prod.mk.injEq, and_iff_right rfl]
    exact hinv i j hi hj

variable {elem : ElementType} {shape size : List ℕ}

theorem slice_gradient {starts : List ℕ} (hfits : WindowFits starts size shape)
    (hdims : UsizeDims shape) (h : Evaluates A calls values grad ⟨elem, size⟩ g) :
    Evaluates A calls values (call (.pad ⟨elem, shape⟩ starts) [grad]) ⟨elem, shape⟩
      (push size (operandMap (.slice ⟨elem, size⟩ starts) [⟨elem, shape⟩] 0) g) := by
  have hlen : starts.length = size.length := hfits.1.trans hfits.2.1.symm
  refine evaluates_push ⟨elem, size⟩ (window starts size) ?_ ?_ (h.pad hfits hdims)
  · exact fun j _ i hi => ((window_eq_some_iff hlen).mp hi).1
  · intro i j hi _
    show some (0, shiftBy starts i) = some (0, j) ↔ _
    rw [Option.some.injEq, Prod.mk.injEq, and_iff_right rfl, window_eq_some_iff hlen,
      and_iff_right hi]
    exact eq_comm

theorem pad_gradient {lows : List ℕ} (hfits : WindowFits lows shape size)
    (hdims : UsizeDims size) (h : Evaluates A calls values grad ⟨elem, size⟩ g) :
    Evaluates A calls values (call (.slice ⟨elem, shape⟩ lows) [grad]) ⟨elem, shape⟩
      (push size (operandMap (.pad ⟨elem, size⟩ lows) [⟨elem, shape⟩] 0) g) := by
  have hlen : lows.length = shape.length := hfits.1.trans hfits.2.1.symm
  refine evaluates_push ⟨elem, size⟩ (fun j => some (shiftBy lows j)) ?_ ?_
    (h.slice hfits hdims)
  · intro j hj i hi
    cases hi
    exact hfits.inBounds hj
  · intro i j _ hj
    show (window lows shape i).map (fun j => (0, j)) = some (0, j) ↔ _
    rw [Option.map_eq_some_iff, Option.some.injEq]
    constructor
    · rintro ⟨j', hwindow, hpair⟩
      cases hpair
      exact ((window_eq_some_iff hlen).mp hwindow).2.symm
    · rintro rfl
      exact ⟨j, window_shiftBy hlen hj, rfl⟩

/-! ### Joining and picking along one axis -/

variable {axis : ℕ}

/-- A slice along one axis of the incoming gradient. -/
theorem evaluates_sliceAxis {op : CallOp} {tys : List TensorType} {operand start count : ℕ}
    (hdims : UsizeDims size) (haxis : axis < size.length)
    (hle : start + count ≤ size.getD axis 0)
    (hinv : ∀ i j, InBounds i size → InBounds j (size.set axis count) →
      (movementLaw op tys 0 i = some (operand, j) ↔ j.set axis (start + j.getD axis 0) = i))
    (h : Evaluates A calls values grad ⟨elem, size⟩ g) :
    Evaluates A calls values
      (call (.slice ⟨elem, size.set axis count⟩ (axisOffsets size.length axis start)) [grad])
      ⟨elem, size.set axis count⟩ (push size (operandMap op tys operand) g) := by
  have hfits := windowFits_axisOffsets haxis hle
  have hshift : ∀ j, InBounds j (size.set axis count) →
      shiftBy (axisOffsets size.length axis start) j = j.set axis (start + j.getD axis 0) := by
    intro j hj
    have hlen : size.length = j.length := by rw [hj.length_eq, List.length_set]
    rw [hlen, shiftBy_axisOffsets (hlen ▸ haxis)]
  refine evaluates_push ⟨elem, size⟩
    (fun j => some (shiftBy (axisOffsets size.length axis start) j)) ?_ ?_
    (h.slice hfits hdims)
  · intro j hj i hi
    cases hi
    exact hfits.inBounds hj
  · intro i j hi hj
    rw [hinv i j hi hj, hshift j hj, Option.some.injEq]

variable {count : ℕ}

theorem concat_gradient_lhs (hdims : UsizeDims (shape.set axis (shape.getD axis 0 + count)))
    (haxis : axis < shape.length)
    (h : Evaluates A calls values grad ⟨elem, shape.set axis (shape.getD axis 0 + count)⟩ g) :
    Evaluates A calls values
      (call (.slice ⟨elem, shape⟩ (List.replicate shape.length 0)) [grad]) ⟨elem, shape⟩
      (push (shape.set axis (shape.getD axis 0 + count))
        (operandMap (.concat axis) [⟨elem, shape⟩, ⟨elem, shape.set axis count⟩] 0) g) := by
  have hslice := @evaluates_sliceAxis R _ A calls values grad g elem
    (shape.set axis (shape.getD axis 0 + count)) axis (.concat axis)
    [⟨elem, shape⟩, ⟨elem, shape.set axis count⟩] 0 0 (shape.getD axis 0) hdims
    (by rwa [List.length_set]) (by rw [getD_set_of_lt haxis, if_pos rfl]; omega) ?_ h
  · rwa [List.set_set, set_getD_self, axisOffsets_zero, List.length_set] at hslice
  · rw [List.set_set, set_getD_self]
    intro i j _ hj
    have hcoord := hj.getD_lt haxis
    show (if i.getD axis 0 < shape.getD axis 0 then some (0, i)
      else some (1, i.set axis (i.getD axis 0 - shape.getD axis 0))) = some (0, j) ↔ _
    rw [Nat.zero_add, set_getD_self]
    split_ifs with hlt
    · rw [Option.some.injEq, Prod.mk.injEq, and_iff_right rfl]
      exact eq_comm
    · simp only [Option.some.injEq, Prod.mk.injEq, one_ne_zero, false_and, false_iff]
      rintro rfl
      exact hlt hcoord

theorem concat_gradient_rhs (hdims : UsizeDims (shape.set axis (shape.getD axis 0 + count)))
    (haxis : axis < shape.length)
    (h : Evaluates A calls values grad ⟨elem, shape.set axis (shape.getD axis 0 + count)⟩ g) :
    Evaluates A calls values
      (call (.slice ⟨elem, shape.set axis count⟩
        (axisOffsets shape.length axis (shape.getD axis 0))) [grad])
      ⟨elem, shape.set axis count⟩
      (push (shape.set axis (shape.getD axis 0 + count))
        (operandMap (.concat axis) [⟨elem, shape⟩, ⟨elem, shape.set axis count⟩] 1) g) := by
  have hslice := @evaluates_sliceAxis R _ A calls values grad g elem
    (shape.set axis (shape.getD axis 0 + count)) axis (.concat axis)
    [⟨elem, shape⟩, ⟨elem, shape.set axis count⟩] 1 (shape.getD axis 0) count hdims
    (by rwa [List.length_set]) (by rw [getD_set_of_lt haxis, if_pos rfl]) ?_ h
  · rwa [List.set_set, List.length_set] at hslice
  · rw [List.set_set]
    intro i j hi hj
    have hilen : i.length = shape.length := by rw [hi.length_eq, List.length_set]
    have hjlen : j.length = shape.length := by rw [hj.length_eq, List.length_set]
    show (if i.getD axis 0 < shape.getD axis 0 then some (0, i)
      else some (1, i.set axis (i.getD axis 0 - shape.getD axis 0))) = some (1, j) ↔ _
    split_ifs with hlt
    · simp only [Option.some.injEq, Prod.mk.injEq, zero_ne_one, false_and, false_iff]
      rintro rfl
      rw [getD_set_of_lt (by omega), if_pos rfl] at hlt
      omega
    · rw [Option.some.injEq, Prod.mk.injEq, and_iff_right rfl]
      constructor
      · rintro rfl
        rw [getD_set_of_lt (by omega), if_pos rfl]
        exact set_set_self (by omega) _
      · rintro rfl
        rw [getD_set_of_lt (by omega), if_pos rfl]
        exact set_set_self (by omega) _

theorem stack_gradient {operand : ℕ} (haxis : axis ≤ shape.length) (hoperand : operand < 2)
    (h : Evaluates A calls values grad ⟨elem, shape.insertIdx axis 2⟩ g) :
    Evaluates A calls values (call (.take axis operand) [grad]) ⟨elem, shape⟩
      (push (shape.insertIdx axis 2)
        (operandMap (.stack axis) [⟨elem, shape⟩, ⟨elem, shape⟩] operand) g) := by
  have hlen := List.length_insertIdx_of_le_length (a := 2) haxis
  have htyped : MovementTyped (.take axis operand) [⟨elem, shape.insertIdx axis 2⟩]
      [⟨elem, shape⟩] := by
    have htake := @MovementTyped.take elem (shape.insertIdx axis 2) axis operand (by omega)
      (by rwa [getD_insertIdx_self haxis])
    rwa [List.eraseIdx_insertIdx_self] at htake
  refine evaluates_push ⟨elem, shape.insertIdx axis 2⟩
    (fun j => some (j.insertIdx axis operand)) ?_ ?_
    (h.movement_total (t := fun j => j.insertIdx axis operand) htyped
      (inferCallResults_of_movementTyped htyped trivial) (fun _ _ => nofun) fun _ => rfl)
  · intro j hj i hi
    cases hi
    exact InBounds.insertIdx hj haxis hoperand
  · intro i j hi hj
    have hilen : i.length = (shape.insertIdx axis 2).length := hi.length_eq
    show some (i.getD axis 0, i.eraseIdx axis) = some (operand, j) ↔ _
    rw [Option.some.injEq, Option.some.injEq, Prod.mk.injEq]
    constructor
    · rintro ⟨rfl, rfl⟩
      exact insertIdx_eraseIdx_of_getD (by omega)
    · rintro rfl
      have hle : axis ≤ j.length := by rw [hj.length_eq]; exact haxis
      exact ⟨getD_insertIdx_self hle _, List.eraseIdx_insertIdx_self _⟩

theorem take_gradient {index : ℕ} (hdims : UsizeDims shape) (haxis : axis < shape.length)
    (hindex : index < shape.getD axis 0)
    (h : Evaluates A calls values grad ⟨elem, shape.eraseIdx axis⟩ g) :
    Evaluates A calls values
      (call (.pad ⟨elem, shape⟩ (axisOffsets shape.length axis index))
        [call (.reshape ⟨elem, shape.set axis 1⟩) [grad]]) ⟨elem, shape⟩
      (push (shape.eraseIdx axis) (operandMap (.take axis index) [⟨elem, shape⟩] 0) g) := by
  have hle : axis ≤ (shape.eraseIdx axis).length := by
    rw [List.length_eraseIdx, if_pos haxis]
    omega
  have hexpanded := (h.reshape (prod_set_one haxis).symm).congr fun i hi =>
    congrArg g (unravel_eraseIdx_ravel_set_one haxis hi)
  have hpadded := hexpanded.pad (windowFits_axisOffsets haxis (by omega : index + 1 ≤ _)) hdims
  refine evaluates_push ⟨elem, shape.eraseIdx axis⟩
    (fun j => if j.getD axis 0 = index then some (j.eraseIdx axis) else none) ?_ ?_
    (hpadded.congr fun j hj => ?_)
  · intro j hj i hi
    dsimp only at hi
    split_ifs at hi
    cases hi
    exact hj.eraseIdx axis
  · intro i j hi hj
    have hjlen : j.length = shape.length := hj.length_eq
    show some (0, i.insertIdx axis index) = some (0, j) ↔ _
    rw [Option.some.injEq, Prod.mk.injEq, and_iff_right rfl]
    constructor
    · rintro rfl
      have hile : axis ≤ i.length := by rw [hi.length_eq]; exact hle
      rw [if_pos (getD_insertIdx_self hile _), List.eraseIdx_insertIdx_self]
    · intro hread
      split_ifs at hread with hcoord
      cases hread
      rw [← hcoord]
      exact insertIdx_eraseIdx_of_getD (by omega)
  · rw [pull, pull, window_axisOffsets hj haxis]
    by_cases hcoord : j.getD axis 0 = index
    · rw [if_pos (by omega), if_pos hcoord]
      show g ((j.set axis (j.getD axis 0 - index)).eraseIdx axis) = g (j.eraseIdx axis)
      rw [List.eraseIdx_set_eq]
    · rw [if_neg (by omega), if_neg hcoord]
      rfl

/-! ### Rearranging -/

theorem flip_gradient {axes : List ℕ} (hnodup : (flipAxes shape.length axes).Nodup)
    (hlt : ∀ axis ∈ flipAxes shape.length axes, axis < shape.length)
    (h : Evaluates A calls values grad ⟨elem, shape⟩ g) :
    Evaluates A calls values (call (.flip axes) [grad]) ⟨elem, shape⟩
      (push shape (operandMap (.flip axes) [⟨elem, shape⟩] 0) g) := by
  have htyped : MovementTyped (.flip axes) [⟨elem, shape⟩] [⟨elem, shape⟩] := .flip hnodup hlt
  refine evaluates_push_total ⟨elem, shape⟩ (flipPosition (flipAxes shape.length axes) shape)
    (fun j hj => inBounds_flipPosition _ hj) (fun _ => rfl) ?_
    (h.movement_total htyped (inferCallResults_of_movementTyped htyped trivial)
      (fun _ _ => nofun) fun _ => rfl)
  intro i j hi hj
  constructor
  · rintro rfl
    exact flipPosition_flipPosition hi
  · rintro rfl
    exact flipPosition_flipPosition hj

/-- The shift back, modulo the dimension. -/
theorem roll_back {dim shift a b : ℕ} (ha : a < dim) (hb : b < dim) :
    (a + (dim - shift % dim)) % dim = b ↔
      (b + (dim - (dim - shift % dim) % dim % dim)) % dim = a := by
  have hshift : shift % dim < dim := Nat.mod_lt _ (Nat.zero_lt_of_lt ha)
  generalize shift % dim = k at hshift
  have hback : (dim - k) % dim % dim = if k = 0 then 0 else dim - k := by
    split_ifs with hk
    · rw [hk, Nat.sub_zero, Nat.mod_self, Nat.zero_mod]
    · rw [Nat.mod_mod, Nat.mod_eq_of_lt (by omega)]
  have hmod : ∀ {n : ℕ}, n < dim + dim → n % dim = if n < dim then n else n - dim := by
    intro n hn
    split_ifs with hlt
    · exact Nat.mod_eq_of_lt hlt
    · rw [Nat.mod_eq_sub_mod (by omega), Nat.mod_eq_of_lt (by omega)]
  rw [hback]
  split_ifs with hk
  · rw [hk, Nat.sub_zero, Nat.add_mod_right, Nat.add_mod_right, Nat.mod_eq_of_lt ha,
      Nat.mod_eq_of_lt hb]
    exact eq_comm
  · rw [hmod (by omega), hmod (by omega)]
    split_ifs <;> omega

theorem roll_gradient {shift : ℕ} (haxis : axis < shape.length)
    (h : Evaluates A calls values grad ⟨elem, shape⟩ g) :
    Evaluates A calls values
      (call (.roll axis (if shape.getD axis 0 = 0 then 0
        else (shape.getD axis 0 - shift % shape.getD axis 0) % shape.getD axis 0)) [grad])
      ⟨elem, shape⟩ (push shape (operandMap (.roll axis shift) [⟨elem, shape⟩] 0) g) := by
  generalize hback : (if shape.getD axis 0 = 0 then 0
    else (shape.getD axis 0 - shift % shape.getD axis 0) % shape.getD axis 0) = back
  have htyped : MovementTyped (.roll axis back) [⟨elem, shape⟩] [⟨elem, shape⟩] := .roll haxis
  have hset : ∀ {i : List ℕ} {value : ℕ}, InBounds i shape → value < shape.getD axis 0 →
      InBounds (i.set axis value) shape := by
    intro i value hi hvalue
    refine @inBounds_set shape i axis (shape.getD axis 0) value ?_ hvalue
    rwa [set_getD_self]
  refine evaluates_push_total ⟨elem, shape⟩ (fun j => j.set axis
      ((j.getD axis 0 + (shape.getD axis 0 - back % shape.getD axis 0)) % shape.getD axis 0))
    (fun j hj => hset hj (Nat.mod_lt _ (Nat.zero_lt_of_lt (hj.getD_lt haxis)))) (fun _ => rfl) ?_
    (h.movement_total htyped (inferCallResults_of_movementTyped htyped trivial)
      (fun _ _ => nofun) fun _ => rfl)
  intro i j hi hj
  have hi : InBounds i shape := hi
  have hj : InBounds j shape := hj
  have hicoord := hi.getD_lt haxis
  have hjcoord := hj.getD_lt haxis
  rw [if_neg (by omega)] at hback
  have hiff := @roll_back _ shift _ _ hicoord hjcoord
  rw [hback] at hiff
  have hilen := hi.length_eq
  have hjlen := hj.length_eq
  show i.set axis _ = j ↔ _
  constructor
  · intro hread
    have hcoord : (i.set axis ((i.getD axis 0 + (shape.getD axis 0 - shift % shape.getD axis 0)) %
        shape.getD axis 0)).getD axis 0 = j.getD axis 0 := congrArg (·.getD axis 0) hread
    rw [getD_set_of_lt (by omega), if_pos rfl] at hcoord
    rw [hiff.mp hcoord, ← hread]
    exact set_set_self rfl _
  · intro hread
    have hcoord : (j.set axis ((j.getD axis 0 + (shape.getD axis 0 - back % shape.getD axis 0)) %
        shape.getD axis 0)).getD axis 0 = i.getD axis 0 := congrArg (·.getD axis 0) hread
    rw [getD_set_of_lt (by omega), if_pos rfl] at hcoord
    show i.set axis ((i.getD axis 0 + (shape.getD axis 0 - shift % shape.getD axis 0)) %
        shape.getD axis 0) = j
    rw [hiff.mpr hcoord, ← hread]
    exact set_set_self rfl _

theorem reshape_gradient (hprod : shape.prod = size.prod)
    (h : Evaluates A calls values grad ⟨elem, size⟩ g) :
    Evaluates A calls values (call (.reshape ⟨elem, shape⟩) [grad]) ⟨elem, shape⟩
      (push size (operandMap (.reshape ⟨elem, size⟩) [⟨elem, shape⟩] 0) g) := by
  refine evaluates_push_total ⟨elem, size⟩ (fun j => unravel size (ravel shape j)) ?_
    (fun _ => rfl) ?_ (h.reshape hprod.symm)
  · exact fun j hj => inBounds_unravel ((ravel_lt hj).trans_eq hprod)
  · intro i j hi hj
    show unravel shape (ravel size i) = j ↔ _
    constructor
    · rintro rfl
      rw [ravel_unravel ((ravel_lt hi).trans_eq hprod.symm), unravel_ravel hi]
    · rintro rfl
      rw [ravel_unravel ((ravel_lt hj).trans_eq hprod), unravel_ravel hj]

/-! ### Permutations -/

/-- **A permutation of the axes, undone by its inverse.**  The operations that
permute axes differ in how they say the permutation. -/
theorem permutation_gradient {op op' : CallOp} {axes inverse : List ℕ}
    (hinverse : InverseAxes shape.length axes inverse)
    (htyped : MovementTyped op' [⟨elem, axes.map fun axis => shape.getD axis 0⟩] [⟨elem, shape⟩])
    (hsizes : SizesFit op' [⟨elem, axes.map fun axis => shape.getD axis 0⟩])
    (hsplit : ∀ axis sections, op' ≠ .split axis sections)
    (hlaw : ∀ i, movementLaw op [⟨elem, shape⟩] 0 i = some (0, permutePosition axes i))
    (hlaw' : ∀ j, movementLaw op' [⟨elem, axes.map fun axis => shape.getD axis 0⟩] 0 j =
      some (0, permutePosition inverse j))
    (h : Evaluates A calls values grad ⟨elem, axes.map fun axis => shape.getD axis 0⟩ g) :
    Evaluates A calls values (call op' [grad]) ⟨elem, shape⟩
      (push (axes.map fun axis => shape.getD axis 0) (operandMap op [⟨elem, shape⟩] 0) g) := by
  have hlen : axes.length = shape.length := hinverse.perm.length_eq.trans List.length_range
  refine evaluates_push_total ⟨elem, axes.map fun axis => shape.getD axis 0⟩
    (permutePosition inverse) ?_ hlaw ?_
    (h.movement_total htyped (inferCallResults_of_movementTyped htyped hsizes) hsplit hlaw')
  · intro j hj
    refine inBounds_permutePosition ?_ ?_
    · rw [List.length_map, hlen]
      exact hinverse.symm.perm
    · rw [hinverse.map_map_getD rfl]
      exact hj
  · intro i j hi hj
    refine hinverse.permutePosition_eq_iff ?_ hj.length_eq
    rw [hi.length_eq, List.length_map, hlen]

/-- The entries set so far invert the axes. -/
theorem inversePermutation_prefix {axes : List ℕ} (hperm : axes.Perm (List.range axes.length))
    (count : ℕ) (hcount : count ≤ axes.length) :
    ((List.range count).foldl
        (fun inverse outputAxis => inverse.set (axes.getD outputAxis 0) outputAxis)
        (List.replicate axes.length 0)).length = axes.length ∧
      ∀ axis < count, ((List.range count).foldl
        (fun inverse outputAxis => inverse.set (axes.getD outputAxis 0) outputAxis)
        (List.replicate axes.length 0)).getD (axes.getD axis 0) 0 = axis := by
  induction count with
  | zero => exact ⟨List.length_replicate, fun axis haxis => absurd haxis (Nat.not_lt_zero _)⟩
  | succ count ih =>
      obtain ⟨hlen, hget⟩ := ih (by omega)
      rw [List.range_succ, List.foldl_append, List.foldl_cons, List.foldl_nil]
      refine ⟨by rw [List.length_set, hlen], fun axis haxis => ?_⟩
      have hmem : axes.getD count 0 ∈ axes := by
        rw [List.getD_eq_getElem _ _ (by omega)]
        exact List.getElem_mem _
      have hlt := List.mem_range.mp (hperm.mem_iff.mp hmem)
      rw [getD_set_of_lt (hlt.trans_eq hlen.symm)]
      by_cases heq : axis = count
      · rw [heq, if_pos rfl]
      · rw [if_neg, hget axis (by omega)]
        rw [List.getD_eq_getElem _ _ (by omega : axis < axes.length),
          List.getD_eq_getElem _ _ (by omega : count < axes.length)]
        exact fun h => heq (List.Nodup.getElem_inj_iff
          (hperm.nodup_iff.mpr List.nodup_range) |>.mp h)

/-- **`inverse_permutation` inverts.** -/
theorem inverseAxes_inversePermutation {axes : List ℕ} {rank : ℕ}
    (hperm : axes.Perm (List.range rank)) : InverseAxes rank axes (inversePermutation axes) := by
  have hlen : axes.length = rank := hperm.length_eq.trans List.length_range
  obtain ⟨hlength, hget⟩ := inversePermutation_prefix (hlen ▸ hperm) axes.length le_rfl
  exact ⟨hperm, hlength.trans hlen, fun axis haxis => hget axis (hlen ▸ haxis)⟩

theorem transposeAxes_of_length {rank : ℕ} {axes : List ℕ} (hlen : axes.length = rank) :
    transposeAxes rank axes = axes := by
  unfold transposeAxes
  split_ifs with hempty
  · obtain rfl := List.isEmpty_iff.mp hempty
    subst hlen
    rfl
  · rfl

theorem transpose_gradient {axes : List ℕ}
    (hperm : (transposeAxes shape.length axes).Perm (List.range shape.length))
    (h : Evaluates A calls values grad
      ⟨elem, (transposeAxes shape.length axes).map fun axis => shape.getD axis 0⟩ g) :
    Evaluates A calls values
      (call (.transpose (inversePermutation (transposeAxes shape.length axes))) [grad])
      ⟨elem, shape⟩
      (push ((transposeAxes shape.length axes).map fun axis => shape.getD axis 0)
        (operandMap (.transpose axes) [⟨elem, shape⟩] 0) g) := by
  have hinverse := inverseAxes_inversePermutation hperm
  have haxes : transposeAxes ((transposeAxes shape.length axes).map fun axis =>
      shape.getD axis 0).length (inversePermutation (transposeAxes shape.length axes)) =
        inversePermutation (transposeAxes shape.length axes) := by
    refine transposeAxes_of_length ?_
    rw [hinverse.length_eq, List.length_map, hperm.length_eq, List.length_range]
  refine permutation_gradient hinverse ?_ trivial (fun _ _ => nofun) (fun _ => rfl) ?_ h
  · have htyped := @MovementTyped.transpose elem
      ((transposeAxes shape.length axes).map fun axis => shape.getD axis 0)
      (inversePermutation (transposeAxes shape.length axes)) (by
        rw [haxes, List.length_map, hperm.length_eq, List.length_range]
        exact hinverse.symm.perm)
    rwa [haxes, hinverse.map_map_getD rfl] at htyped
  · intro j
    show some (0, permutePosition (transposeAxes _ _) j) = _
    exact congrArg (fun axes => some (0, permutePosition axes j)) haxes

/-- `permute` and `permute_dims` have one rule. -/
theorem permute_gradient {op : CallOp} {axes : List ℕ} (hperm : axes.Perm (List.range shape.length))
    (hlaw : ∀ i, movementLaw op [⟨elem, shape⟩] 0 i = some (0, permutePosition axes i))
    (h : Evaluates A calls values grad ⟨elem, axes.map fun axis => shape.getD axis 0⟩ g) :
    Evaluates A calls values (call (.permuteDims (inversePermutation axes)) [grad]) ⟨elem, shape⟩
      (push (axes.map fun axis => shape.getD axis 0) (operandMap op [⟨elem, shape⟩] 0) g) := by
  have hinverse := inverseAxes_inversePermutation hperm
  refine permutation_gradient hinverse ?_ trivial (fun _ _ => nofun) hlaw (fun _ => rfl) h
  have htyped := @MovementTyped.permuteDims elem (axes.map fun axis => shape.getD axis 0)
    (inversePermutation axes) (by
      rw [List.length_map, hperm.length_eq, List.length_range]
      exact hinverse.symm.perm)
  rwa [hinverse.map_map_getD rfl] at htyped

theorem swapAxes_gradient {axis0 axis1 : ℕ} (haxis0 : axis0 < shape.length)
    (haxis1 : axis1 < shape.length)
    (h : Evaluates A calls values grad ⟨elem, swapDims shape axis0 axis1⟩ g) :
    Evaluates A calls values (call (.swapAxes axis0 axis1) [grad]) ⟨elem, shape⟩
      (push (swapDims shape axis0 axis1)
        (operandMap (.swapAxes axis0 axis1) [⟨elem, shape⟩] 0) g) := by
  have hinverse := inverseAxes_swapDims haxis0 haxis1
  rw [← map_swapDims_range haxis0 haxis1] at h ⊢
  have hlen : ((swapDims (List.range shape.length) axis0 axis1).map fun axis =>
      shape.getD axis 0).length = shape.length := by simp [swapDims]
  refine permutation_gradient hinverse ?_ trivial (fun _ _ h => by cases h) (fun _ => rfl) ?_ h
  · have htyped := @MovementTyped.swapAxes elem
      ((swapDims (List.range shape.length) axis0 axis1).map fun axis => shape.getD axis 0)
      axis0 axis1 (by rwa [hlen]) (by rwa [hlen])
    have hback := map_swapDims_range (hlen.symm ▸ haxis0) (hlen.symm ▸ haxis1)
    rw [hlen, hinverse.map_map_getD rfl] at hback
    rwa [← hback] at htyped
  · intro j
    exact congrArg (fun rank => some (0, permutePosition (swapDims (List.range rank) axis0 axis1) j))
      hlen

theorem moveAxis_gradient {source destination : ℕ} (hsource : source < shape.length)
    (hdestination : destination < shape.length)
    (h : Evaluates A calls values grad ⟨elem, (moveaxisAxes shape.length source destination).map
      fun axis => shape.getD axis 0⟩ g) :
    Evaluates A calls values (call (.moveAxis destination source) [grad]) ⟨elem, shape⟩
      (push ((moveaxisAxes shape.length source destination).map fun axis => shape.getD axis 0)
        (operandMap (.moveAxis source destination) [⟨elem, shape⟩] 0) g) := by
  have hinverse := inverseAxes_moveaxisAxes hsource hdestination
  have hlen : ((moveaxisAxes shape.length source destination).map fun axis =>
      shape.getD axis 0).length = shape.length := by
    rw [List.length_map, hinverse.perm.length_eq, List.length_range]
  refine permutation_gradient hinverse ?_ trivial (fun _ _ => nofun) (fun _ => rfl) ?_ h
  · have htyped := @MovementTyped.moveAxis elem
      ((moveaxisAxes shape.length source destination).map fun axis => shape.getD axis 0)
      destination source (by rwa [hlen]) (by rwa [hlen])
    rwa [hlen, hinverse.map_map_getD rfl] at htyped
  · intro j
    exact congrArg (fun rank => some (0, permutePosition (moveaxisAxes rank destination source) j))
      hlen

/-! ### Movements without elements -/

/-- The zero gradient of a movement without elements. -/
theorem empty_gradient {op : CallOp} {tys : List TensorType} {e : Expr} {x : List ℕ → R}
    (hempty : ∀ i, ¬ InBounds i ty.shape) (hx : Evaluates A calls values e operandTy x) :
    Evaluates A calls values (zerosLike e) operandTy (push ty.shape (operandMap op tys 0) g) := by
  refine hx.zerosLike.congr fun j _ => (Finset.sum_eq_zero fun i hi => ?_).symm
  exact absurd (mem_box.mp hi) (hempty i)

/-! ### Adding up copies -/

theorem repeat_gradient (helem : elem.isNumeric = true) (haxis : axis < shape.length)
    (h : Evaluates A calls values grad ⟨elem, shape.set axis (shape.getD axis 0 * count)⟩ g) :
    Evaluates A calls values
      (call (.sum (.one (axis + 1)))
        [call (.reshape (tensor elem (shape.insertIdx (axis + 1) count))) [grad]]) ⟨elem, shape⟩
      (push (shape.set axis (shape.getD axis 0 * count))
        (operandMap (.repeat_ axis count) [⟨elem, shape⟩] 0) g) := by
  have hlen := List.length_insertIdx_of_le_length (a := count) (show axis + 1 ≤ shape.length from haxis)
  have hreshaped := h.reshape (prod_insertIdx_succ count haxis).symm
  have hsummed := hreshaped.sum (axis + 1) helem
    (show axis + 1 < (shape.insertIdx (axis + 1) count).length by omega)
  have htype : (⟨elem, (shape.insertIdx (axis + 1) count).eraseIdx (axis + 1)⟩ : TensorType) =
      ⟨elem, shape⟩ := by rw [List.eraseIdx_insertIdx_self]
  refine (hsummed.congr_type htype).congr fun j hj => ?_
  have hj : InBounds j shape := hj
  have hjlen := hj.length_eq
  have hcoord := hj.getD_lt haxis
  have hread : ∀ k < count, unravel (shape.set axis (shape.getD axis 0 * count))
      (ravel (shape.insertIdx (axis + 1) count) (j.insertIdx (axis + 1) k)) =
        j.set axis (j.getD axis 0 * count + k) := by
    intro k hk
    rw [ravel_insertIdx_succ count k haxis hjlen, unravel_ravel (hj.set ?_)]
    calc j.getD axis 0 * count + k < (j.getD axis 0 + 1) * count := by rw [Nat.succ_mul]; omega
      _ ≤ shape.getD axis 0 * count := Nat.mul_le_mul_right _ hcoord
  have hpush := @push_setAxis R _ shape j axis (shape.getD axis 0 * count) count (· / count)
    (fun k => j.getD axis 0 * count + k) haxis hj ?_ ?_ ?_ g
  · show ∑ k ∈ Finset.range ((shape.insertIdx (axis + 1) count).getD (axis + 1) 0), _ = _
    rw [getD_insertIdx_self haxis]
    refine (Finset.sum_congr rfl fun k hk => ?_).trans hpush.symm
    rw [hread k (Finset.mem_range.mp hk)]
  · intro k hk
    refine ⟨?_, ?_⟩
    · calc j.getD axis 0 * count + k < (j.getD axis 0 + 1) * count := by rw [Nat.succ_mul]; omega
        _ ≤ shape.getD axis 0 * count := Nat.mul_le_mul_right _ hcoord
    · show (j.getD axis 0 * count + k) / count = j.getD axis 0
      rw [Nat.mul_comm, Nat.mul_add_div (by omega), Nat.div_eq_of_lt hk, Nat.add_zero]
  · exact fun k _ k' _ heq => Nat.add_left_cancel heq
  · intro b hb hdiv
    have hpos : 0 < count := Nat.pos_of_mul_pos_left (Nat.zero_lt_of_lt hb)
    refine ⟨b % count, Nat.mod_lt _ hpos, ?_⟩
    rw [← hdiv, Nat.mul_comm]
    exact Nat.div_add_mod b count

/-- Pieces summed from the left. -/
theorem evaluates_sumPieces {α : Type*} {items : List α} {piece : α → Expr}
    {entry : α → List ℕ → R} {e : Expr} (helem : ty.elem.isNumeric = true)
    (hpieces : ∀ item ∈ items, Evaluates A calls values (piece item) ty (entry item))
    (hsum : sumPieces (items.map piece) = some e) :
    Evaluates A calls values e ty fun i => (items.map fun item => entry item i).sum := by
  cases items with
  | nil => cases hsum
  | cons item items =>
      obtain rfl := Option.some.inj hsum
      obtain ⟨hpiece, hrest⟩ := List.forall_mem_cons.mp hpieces
      exact Evaluates.foldl_add helem hrest hpiece

/-- Pieces summed from the left, zeros for no pieces. -/
theorem evaluates_sumPieces_getD {α : Type*} {items : List α} {piece : α → Expr}
    {entry : α → List ℕ → R} {arg : Expr} {x : List ℕ → R} (helem : ty.elem.isNumeric = true)
    (harg : Evaluates A calls values arg ty x)
    (hpieces : ∀ item ∈ items, Evaluates A calls values (piece item) ty (entry item)) :
    Evaluates A calls values ((sumPieces (items.map piece)).getD (zerosLike arg)) ty
      fun i => (items.map fun item => entry item i).sum := by
  cases items with
  | nil => exact harg.zerosLike
  | cons item items => exact evaluates_sumPieces helem hpieces rfl

/-- The copies along one axis of a tile, added up. -/
theorem tileSlices_gradient {s : List ℕ} {dim multiple : ℕ} {e : Expr}
    (helem : elem.isNumeric = true) (hdims : UsizeDims s) (haxis : axis < s.length)
    (hdim : s.getD axis 0 = dim * multiple)
    (hsum : sumPieces (tileSlices grad s.length ⟨elem, s.set axis dim⟩ axis dim multiple) = some e)
    (h : Evaluates A calls values grad ⟨elem, s⟩ g) :
    Evaluates A calls values e ⟨elem, s.set axis dim⟩
      (push s (fun i => some (i.set axis (i.getD axis 0 % dim))) g) := by
  have hwhole : s.getD axis 0 < 2 ^ 64 := hdims.getD_lt axis
  have hend : ∀ k < multiple, k * dim + dim ≤ s.getD axis 0 := by
    intro k hk
    calc k * dim + dim = (k + 1) * dim := (Nat.succ_mul _ _).symm
      _ ≤ multiple * dim := Nat.mul_le_mul_right _ hk
      _ = s.getD axis 0 := by rw [hdim, Nat.mul_comm]
  have hpieces : ∀ k ∈ List.range multiple, Evaluates A calls values
      (call (.slice ⟨elem, s.set axis dim⟩
        ((List.replicate s.length 0).set axis (usizeMul k dim))) [grad])
      ⟨elem, s.set axis dim⟩ fun j => g (j.set axis (k * dim + j.getD axis 0)) := by
    intro k hk
    have hk := hend k (List.mem_range.mp hk)
    rw [usizeMul_of_lt (show k * dim < 2 ^ 64 by omega)]
    refine (h.slice (windowFits_axisOffsets haxis hk) hdims).congr fun j hj => ?_
    have hjlen : s.length = j.length := by
      have hjlen := hj.length_eq
      rw [List.length_set] at hjlen
      exact hjlen.symm
    rw [hjlen, shiftBy_axisOffsets (hjlen ▸ haxis)]
  refine (evaluates_sumPieces helem hpieces hsum).congr fun j hj => ?_
  have hj : InBounds j (s.set axis dim) := hj
  have hjlen : j.length = s.length := by rw [hj.length_eq, List.length_set]
  have hcoord := hj.getD_lt (show axis < (s.set axis dim).length by rwa [List.length_set])
  rw [getD_set_of_lt haxis, if_pos rfl] at hcoord
  have hpush := @push_setAxis R _ (s.set axis dim) j axis (s.getD axis 0) multiple (· % dim)
    (fun k => k * dim + j.getD axis 0) (by rwa [List.length_set]) hj ?_ ?_ ?_ g
  · rw [List.set_set, set_getD_self] at hpush
    rw [hpush, ← List.toFinset_range, List.sum_toFinset _ List.nodup_range]
  · intro k hk
    have := hend k hk
    refine ⟨by omega, ?_⟩
    show (k * dim + j.getD axis 0) % dim = j.getD axis 0
    rw [Nat.add_comm, Nat.add_mul_mod_self_right, Nat.mod_eq_of_lt hcoord]
  · intro k _ k' _ heq
    exact Nat.eq_of_mul_eq_mul_right (Nat.zero_lt_of_lt hcoord) (Nat.add_right_cancel heq)
  · intro b hb hmod
    rw [hdim] at hb
    refine ⟨b / dim, Nat.div_lt_of_lt_mul hb, ?_⟩
    rw [← hmod, Nat.mul_comm]
    exact Nat.div_add_mod b dim

theorem exists_sumPieces (pieces : List Expr) (h : pieces ≠ []) :
    ∃ e, sumPieces pieces = some e := by
  cases pieces with
  | nil => exact absurd rfl h
  | cons piece pieces => exact ⟨_, rfl⟩

/-- **The copies along several axes, added up axis by axis.** -/
theorem exists_tileGrad (helem : elem.isNumeric = true) (hdims : UsizeDims shape) :
    ∀ (axes : List (ℕ × ℕ)) {current : Expr} {s : List ℕ} {x : List ℕ → R},
      (axes.map Prod.fst).Nodup → UsizeDims s →
      (∀ p ∈ axes, p.1 < s.length ∧ s.getD p.1 0 = shape.getD p.1 0 * p.2 ∧ p.2 ≠ 0) →
      Evaluates A calls values current ⟨elem, s⟩ x →
      ∃ e, tileGrad ⟨elem, shape⟩ axes current ⟨elem, s⟩ = .ok e ∧
        Evaluates A calls values e
          ⟨elem, setAxes (fun axis _ => shape.getD axis 0) (axes.map Prod.fst) s⟩
          (push s (fun i => some
            (setAxes (fun axis k => k % shape.getD axis 0) (axes.map Prod.fst) i)) x) := by
  intro axes
  induction axes with
  | nil =>
      intro current s x _ _ _ h
      exact ⟨current, rfl, h.congr fun j hj => (push_id x hj).symm⟩
  | cons first axes ih =>
      obtain ⟨axis, multiple⟩ := first
      intro current s x hnodup hs haxes h
      obtain ⟨hfirst, hnext⟩ := List.nodup_cons.mp hnodup
      obtain ⟨⟨haxis, hdim, hmultiple⟩, hrest⟩ := List.forall_mem_cons.mp haxes
      simp only [List.map_cons, setAxes_cons, tileGrad]
      by_cases hone : multiple ≤ 1
      · -- one copy: the axis is skipped
        obtain rfl : multiple = 1 := by omega
        rw [Nat.mul_one] at hdim
        rw [if_pos hone, ← hdim, set_getD_self]
        obtain ⟨e, he, hevaluates⟩ := ih hnext hs hrest h
        refine ⟨e, he, hevaluates.congr fun j _ => ?_⟩
        refine push_congr (fun _ _ => rfl) (fun i hi => ?_) j
        rw [Nat.mod_eq_of_lt (hi.getD_lt haxis), set_getD_self]
      · obtain ⟨sum, hsum⟩ := exists_sumPieces
          (tileSlices current s.length ⟨elem, s.set axis (shape.getD axis 0)⟩ axis
            (shape.getD axis 0) multiple) (by simp [tileSlices]; omega)
        have hslices := tileSlices_gradient helem hs haxis hdim hsum h
        obtain ⟨e, he, hevaluates⟩ := ih hnext (hs.set axis (hdims.getD_lt axis)) (by
          intro p hp
          obtain ⟨hlt, hpdim, hp0⟩ := hrest p hp
          have hne : p.1 ≠ axis := fun heq =>
            hfirst (List.mem_map.mpr ⟨p, hp, heq⟩)
          refine ⟨by rwa [List.length_set], ?_, hp0⟩
          rw [getD_set_of_lt haxis, if_neg hne, hpdim]) hslices
        refine ⟨e, ?_, hevaluates.congr fun j _ => ?_⟩
        · rw [if_neg hone]
          simp only [TensorType.rank, TensorType.dim, hsum]
          exact he
        · refine push_push (fun i hi k hk => ?_) x j
          cases hk
          refine hi.set (Nat.mod_lt _ (Nat.pos_of_ne_zero fun hzero => ?_))
          have hcoord := hi.getD_lt haxis
          rw [hdim, hzero, Nat.zero_mul] at hcoord
          exact Nat.not_lt_zero _ hcoord

theorem getD_mem {dims : List ℕ} {axis : ℕ} (haxis : axis < dims.length) :
    dims.getD axis 0 ∈ dims := by
  rw [List.getD_eq_getElem _ _ haxis]
  exact List.getElem_mem haxis

/-- The axes of a tile with their multiples. -/
theorem mem_tileAxes {multiples : List ℕ} {p : ℕ × ℕ} :
    p ∈ ((List.range multiples.length).zip multiples).reverse ↔
      p.1 < multiples.length ∧ multiples.getD p.1 0 = p.2 := by
  rw [List.mem_reverse, List.mem_iff_getElem]
  simp only [List.length_zip, List.length_range, min_self, List.getElem_zip, List.getElem_range]
  constructor
  · rintro ⟨k, hk, rfl⟩
    exact ⟨hk, List.getD_eq_getElem _ _ hk⟩
  · rintro ⟨hk, hmultiple⟩
    rw [List.getD_eq_getElem _ _ hk] at hmultiple
    exact ⟨p.1, hk, Prod.ext rfl hmultiple⟩

theorem map_fst_tileAxes (multiples : List ℕ) :
    ((List.range multiples.length).zip multiples).reverse.map Prod.fst =
      (List.range multiples.length).reverse := by
  rw [List.map_reverse, List.map_fst_zip (by simp)]

/-- All axes set to those of a shape. -/
theorem setAxes_shape {s : List ℕ} (hlen : s.length = shape.length) :
    setAxes (fun axis _ => shape.getD axis 0) (List.range shape.length).reverse s = shape := by
  refine ext_getD (by rw [length_setAxes, hlen]) fun axis haxis => ?_
  rw [length_setAxes] at haxis
  rw [getD_setAxes (List.nodup_reverse.mpr List.nodup_range) haxis,
    if_pos (by simpa [hlen] using haxis)]

theorem tile_gradient {multiples : List ℕ} (helem : elem.isNumeric = true)
    (hlen : multiples.length = shape.length) (hdims : UsizeDims shape)
    (hout : UsizeDims (List.zipWith (· * ·) shape multiples)) (hzero : 0 ∉ multiples)
    (h : Evaluates A calls values grad ⟨elem, List.zipWith (· * ·) shape multiples⟩ g) :
    ∃ e, tileGrad ⟨elem, shape⟩ ((List.range multiples.length).zip multiples).reverse grad
        ⟨elem, List.zipWith (· * ·) shape multiples⟩ = .ok e ∧
      Evaluates A calls values e ⟨elem, shape⟩
        (push (List.zipWith (· * ·) shape multiples)
          (operandMap (.tile multiples) [⟨elem, shape⟩] 0) g) := by
  have houtLen : (List.zipWith (· * ·) shape multiples).length = shape.length := by
    rw [List.length_zipWith, hlen, min_self]
  have hfst : ((List.range multiples.length).zip multiples).reverse.map Prod.fst =
      (List.range shape.length).reverse := by rw [map_fst_tileAxes, hlen]
  have hnodup : (List.range shape.length).reverse.Nodup :=
    List.nodup_reverse.mpr List.nodup_range
  obtain ⟨e, he, hevaluates⟩ := exists_tileGrad helem hdims
    ((List.range multiples.length).zip multiples).reverse
    (by rwa [hfst]) hout (by
      intro p hp
      obtain ⟨hlt, hmultiple⟩ := mem_tileAxes.mp hp
      refine ⟨by omega, ?_, fun hone => hzero (hone ▸ hmultiple ▸ getD_mem hlt)⟩
      rw [getD_zipWith _ hlen.symm (by omega), hmultiple]) h
  rw [hfst] at hevaluates
  have hshape := setAxes_shape houtLen
  refine ⟨e, he, (hevaluates.congr_type (by rw [hshape])).congr fun j _ => ?_⟩
  refine push_congr (fun _ _ => rfl) (fun i hi => ?_) j
  have hilen : i.length = shape.length := hi.length_eq.trans houtLen
  show some _ = some (List.zipWith (· % ·) i shape)
  refine congrArg some (ext_getD ?_ fun axis haxis => ?_)
  · rw [length_setAxes, List.length_zipWith, hilen, min_self]
  · rw [length_setAxes] at haxis
    rw [getD_setAxes hnodup haxis, if_pos (by simpa [hilen] using haxis),
      getD_zipWith _ hilen haxis]

end Inverses

end Knok.Autograd
