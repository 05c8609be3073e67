import Mathlib
import Knok.Evaluates
import Knok.Autograd.Unbroadcast

/-!
# Undoing a broadcast: values

`unbroadcast` sends a gradient back along the broadcast: an entry of the target
receives the sum of the entries that were read from it (`evaluates_unbroadcast`).
Each step of the two loops sums one axis, and the steps compose as index maps.
-/

namespace Knok.Autograd

open Arrays Control

universe u

variable {R : Type u} [CommRing R] {A : Arithmetic R} {calls : Calls (Tensor R)}
  {values : Env (Tensor R)} {elem : ElementType}

/-! ## Leading axes -/

/-- Summing a leading axis. -/
theorem push_tail {dim : ℕ} {shape j : List ℕ} (hj : InBounds j shape) (x : List ℕ → R) :
    push (dim :: shape) (fun i => some i.tail) x j = ∑ k ∈ Finset.range dim, x (k :: j) := by
  refine push_eq_sum (fun k hk => ⟨.cons (Finset.mem_range.mp hk) hj, rfl⟩)
    (fun k _ k' _ heq => (List.cons.inj heq).1) (fun i hi hsent => ?_) x
  cases hi with
  | cons hk hrest =>
      cases hsent
      exact ⟨_, Finset.mem_range.mpr hk, rfl⟩

theorem evaluates_sumLeading (helem : elem.isNumeric = true) (rank : ℕ) {shape : List ℕ} :
    ∀ {e : Expr} {x : List ℕ → R}, Evaluates A calls values e ⟨elem, shape⟩ x →
      Evaluates A calls values (sumLeading rank e shape).1
        ⟨elem, shape.drop (shape.length - rank)⟩
        (push shape (fun i => some (i.drop (shape.length - rank))) x) := by
  induction shape with
  | nil =>
      intro e x h
      rw [List.length_nil, Nat.zero_sub]
      exact h.congr fun j hj => (push_id x hj).symm
  | cons dim shape ih =>
      intro e x h
      unfold sumLeading
      split_ifs with hrank
      · have hpos : 0 < (dim :: shape).length := Nat.zero_lt_succ _
        have hsummed := ih (h.sum 0 helem hpos)
        have hcount : (dim :: shape).length - rank = shape.length - rank + 1 := by
          rw [List.length_cons] at hrank ⊢
          omega
        rw [hcount, List.drop_succ_cons]
        refine hsummed.congr fun j hj => ?_
        have hmaps : MapsBox (dim :: shape) shape fun i => some i.tail := by
          intro i hi j hj
          cases hj
          cases hi with
          | cons _ hrest => exact hrest
        have htwice := push_push (τ := fun i => some (i.drop (shape.length - rank))) hmaps x j
        have hdrop : ∀ i, InBounds i (dim :: shape) →
            ((some i.tail : Option (List ℕ)).bind fun i => some (i.drop (shape.length - rank))) =
              some (i.drop (shape.length - rank + 1)) := by
          intro i hi
          cases hi with
          | cons _ _ => rfl
        rw [← push_congr (fun _ _ => rfl) hdrop j, ← htwice]
        exact push_congr (fun i hi => (push_tail hi x).symm) (fun _ _ => rfl) j
      · have hzero : (dim :: shape).length - rank = 0 := by omega
        rw [hzero]
        exact h.congr fun j hj => (push_id x hj).symm

/-! ## Unit axes -/

/-- A position with the coordinates along some unit axes of the target set to
zero. -/
def clearUnits (target : List ℕ) (axis left : ℕ) (i : List ℕ) : List ℕ :=
  (List.range i.length).map fun other =>
    if axis ≤ other ∧ other < axis + left ∧ target.getD other 0 = 1 then 0 else i.getD other 0

theorem length_clearUnits (target : List ℕ) (axis left : ℕ) (i : List ℕ) :
    (clearUnits target axis left i).length = i.length := by
  simp [clearUnits]

theorem getD_clearUnits {target i : List ℕ} {axis left other : ℕ} (hother : other < i.length) :
    (clearUnits target axis left i).getD other 0 =
      if axis ≤ other ∧ other < axis + left ∧ target.getD other 0 = 1 then 0
      else i.getD other 0 :=
  getD_map_range _ hother

theorem clearUnits_zero (target : List ℕ) (axis : ℕ) (i : List ℕ) :
    clearUnits target axis 0 i = i := by
  refine ext_getD (length_clearUnits _ _ _ _) fun other hother => ?_
  rw [length_clearUnits] at hother
  rw [getD_clearUnits hother, if_neg (by omega)]

/-- The first axis of the loop, then the rest. -/
theorem clearUnits_succ {target i : List ℕ} {axis left : ℕ} (haxis : axis < i.length)
    {i' : List ℕ} (hi' : i' = if target.getD axis 0 = 1 then i.set axis 0 else i) :
    clearUnits target (axis + 1) left i' = clearUnits target axis (left + 1) i := by
  have hlen : i'.length = i.length := by
    rw [hi']
    split_ifs <;> simp
  refine ext_getD (by rw [length_clearUnits, length_clearUnits, hlen]) fun other hother => ?_
  rw [length_clearUnits, hlen] at hother
  rw [getD_clearUnits (hlen ▸ hother), getD_clearUnits hother]
  by_cases heq : other = axis
  · subst heq
    rw [if_neg (by omega), hi']
    split_ifs with hunit h h
    · rw [getD_set_of_lt haxis, if_pos rfl]
    · exact absurd ⟨le_rfl, by omega, hunit⟩ h
    · exact absurd h.2.2 hunit
    · rfl
  · have hsame : i'.getD other 0 = i.getD other 0 := by
      rw [hi']
      split_ifs
      · rw [getD_set_of_lt haxis, if_neg heq]
      · rfl
    rw [hsame]
    exact if_congr (by omega) rfl rfl

/-- Summing one axis and putting a unit axis in its place. -/
theorem evaluates_sumUnitAxis (helem : elem.isNumeric = true) {shape : List ℕ} {axis : ℕ}
    (haxis : axis < shape.length) {e : Expr} {x : List ℕ → R}
    (h : Evaluates A calls values e ⟨elem, shape⟩ x) :
    Evaluates A calls values
      (call (.reshape ⟨elem, shape.set axis 1⟩) [call (.sum (.one axis)) [e]])
      ⟨elem, shape.set axis 1⟩ (push shape (fun i => some (i.set axis 0)) x) := by
  refine ((h.sum axis helem haxis).reshape (prod_set_one haxis).symm).congr fun j hj => ?_
  have hj : InBounds j (shape.set axis 1) := hj
  have hjlen : j.length = shape.length := by rw [hj.length_eq, List.length_set]
  have hzero : j.getD axis 0 = 0 := by
    have := hj.getD_lt (show axis < (shape.set axis 1).length by rwa [List.length_set])
    rwa [getD_set_of_lt haxis, if_pos rfl, Nat.lt_one_iff] at this
  have hpush := @push_setAxis R _ (shape.set axis 1) j axis (shape.getD axis 0)
    (shape.getD axis 0) (fun _ => 0) id (by rwa [List.length_set]) hj
    (fun k hk => ⟨hk, hzero.symm⟩) (fun _ _ _ _ heq => heq) (fun b hb _ => ⟨b, hb, rfl⟩) x
  rw [List.set_set, set_getD_self] at hpush
  rw [hpush, unravel_eraseIdx_ravel_set_one haxis hj]
  refine Finset.sum_congr rfl fun k _ => ?_
  rw [insertIdx_eraseIdx_self (by omega)]
  rfl

theorem evaluates_sumUnitAxes (helem : elem.isNumeric = true) (target : List ℕ) (left : ℕ) :
    ∀ {axis : ℕ} {e : Expr} {shape : List ℕ} {x : List ℕ → R}, axis + left ≤ shape.length →
      Evaluates A calls values e ⟨elem, shape⟩ x →
      Evaluates A calls values (sumUnitAxes elem target left axis (e, shape)).1
        ⟨elem, (sumUnitAxes elem target left axis (e, shape)).2⟩
        (push shape (fun i => some (clearUnits target axis left i)) x) := by
  induction left with
  | zero =>
      intro axis e shape x _ h
      refine h.congr fun j hj => ((push_congr (fun _ _ => rfl) (fun i _ => ?_) j).trans
        (push_id x hj)).symm
      rw [clearUnits_zero]
  | succ left ih =>
      intro axis e shape x hle h
      have haxis : axis < shape.length := by omega
      unfold sumUnitAxes
      split_ifs with hunit
      · dsimp only
        rw [insertIdx_eraseIdx_self haxis]
        refine (ih (by rw [List.length_set]; omega) (evaluates_sumUnitAxis helem haxis h)).congr
          fun j _ => ?_
        have hmaps : MapsBox shape (shape.set axis 1) fun i => some (i.set axis 0) := by
          intro i hi j hj
          cases hj
          exact hi.set Nat.zero_lt_one
        rw [push_push hmaps]
        refine push_congr (fun _ _ => rfl) (fun i hi => ?_) j
        have hilen := hi.length_eq
        exact congrArg some (clearUnits_succ (by omega) (if_pos hunit.1).symm)
      · refine (ih (by omega) h).congr fun j _ => push_congr (fun _ _ => rfl) (fun i hi => ?_) j
        have hilen := hi.length_eq
        refine congrArg some (clearUnits_succ (by omega) ?_)
        -- a unit axis of both shapes has coordinate zero already
        split_ifs with htarget
        · have hone : shape.getD axis 0 = 1 := not_not.mp fun hne => hunit ⟨htarget, hne⟩
          have hcoord := hi.getD_lt haxis
          rw [hone, Nat.lt_one_iff] at hcoord
          conv_lhs => rw [← set_getD_self i axis, hcoord]
        · rfl

/-! ## Both loops -/

/-- What an accepted gradient is reduced to. -/
theorem unbroadcast_eq_ok {e e' : Expr} {sourceTy targetTy : TensorType}
    (hok : unbroadcast e sourceTy targetTy = .ok e') :
    sumUnitAxes sourceTy.elem targetTy.shape targetTy.rank 0
        (sumLeading targetTy.rank e sourceTy.shape) = (e', targetTy.shape) ∧
      sourceTy.elem = targetTy.elem ∧
        (sumLeading targetTy.rank e sourceTy.shape).2.length = targetTy.rank := by
  unfold unbroadcast at hok
  rcases hlead : sumLeading targetTy.rank e sourceTy.shape with ⟨summed, shape⟩
  rw [hlead] at hok
  dsimp only at hok ⊢
  split_ifs at hok with hrank hty
  obtain rfl := Except.ok.inj hok
  have hshape := congrArg TensorType.shape (not_not.mp hty)
  have helem := congrArg TensorType.elem (not_not.mp hty)
  exact ⟨Prod.ext rfl hshape, helem, not_not.mp hrank⟩

theorem clearUnits_drop {target source i : List ℕ} (hbroadcast : BroadcastsTo target source)
    (hi : InBounds i source) :
    clearUnits target 0 target.length (i.drop (source.length - target.length)) =
      broadcastIndex target i := by
  have hle : target.length ≤ i.length := hi.length_eq ▸ hbroadcast.1
  have hlen : (i.drop (source.length - target.length)).length = target.length := by
    rw [List.length_drop, ← hi.length_eq]
    omega
  refine ext_getD (by rw [length_clearUnits, hlen, length_broadcastIndex hle])
    fun axis haxis => ?_
  rw [length_clearUnits] at haxis
  rw [getD_clearUnits haxis, getD_broadcastIndex hle (hlen ▸ haxis), getD_drop, hi.length_eq]
  exact if_congr (by omega) rfl rfl

/-- **An emitted reduction sends the gradient back along the broadcast.** -/
theorem evaluates_unbroadcast {e e' : Expr} {sourceTy targetTy : TensorType} {x : List ℕ → R}
    (helem : sourceTy.elem.isNumeric = true)
    (hok : unbroadcast e sourceTy targetTy = .ok e') (h : Evaluates A calls values e sourceTy x) :
    Evaluates A calls values e' targetTy
      (push sourceTy.shape (fun i => some (broadcastIndex targetTy.shape i)) x) := by
  have hbroadcast := (exists_unbroadcast_iff.mp ⟨e', hok⟩).2
  obtain ⟨hunit, htarget, hrank⟩ := unbroadcast_eq_ok hok
  have hlead := evaluates_sumLeading helem targetTy.rank h
  rw [← sumLeading_shape targetTy.rank sourceTy.shape e] at hlead
  have hle : 0 + targetTy.rank ≤ (sumLeading targetTy.rank e sourceTy.shape).2.length := by
    rw [hrank, Nat.zero_add]
  have hunits := evaluates_sumUnitAxes helem targetTy.shape targetTy.rank hle hlead
  rw [Prod.mk.eta, hunit, htarget] at hunits
  refine hunits.congr fun j _ => ?_
  have hmaps : MapsBox sourceTy.shape (sumLeading targetTy.rank e sourceTy.shape).2
      fun i => some (i.drop (sourceTy.shape.length - targetTy.rank)) := by
    intro i hi j hj
    cases hj
    rw [sumLeading_shape]
    exact List.forall₂_drop _ hi
  rw [push_push hmaps]
  exact push_congr (fun _ _ => rfl)
    (fun i hi => congrArg some (clearUnits_drop hbroadcast hi)) j

/-! ## The adjoint of broadcasting -/

/-- An array that is broadcast from a shape. -/
def broadcastFrom (target : List ℕ) (x : List ℕ → R) (i : List ℕ) : R :=
  x (broadcastIndex target i)

omit [CommRing R] in
/-- Broadcasting reads every entry from a position of the target. -/
theorem mapsBox_broadcastIndex {source target : List ℕ} (h : BroadcastsTo target source) :
    MapsBox source target fun i => some (broadcastIndex target i) := by
  intro i hi j hj
  cases hj
  exact h.inBounds hi

theorem inner_broadcastFrom {source target : List ℕ} (h : BroadcastsTo target source)
    (x g : List ℕ → R) :
    inner source (broadcastFrom target x) g =
      inner target x (push source (fun i => some (broadcastIndex target i)) g) :=
  inner_pull (mapsBox_broadcastIndex h) x g

/-- **`unbroadcast` is the adjoint of broadcasting.**  It accepts exactly the shapes
that broadcast; what it emits has the target's type. -/
theorem unbroadcast_adjoint {elem : ElementType} (helem : elem.isNumeric = true)
    (source target : List ℕ) (grad : Expr) :
    (BroadcastsTo target source →
      ∃ e, unbroadcast grad ⟨elem, source⟩ ⟨elem, target⟩ = .ok e ∧
        ∀ (R : Type u) [CommRing R] (A : Arithmetic R) (calls : Calls (Tensor R))
          (values : Env (Tensor R)) (g : List ℕ → R),
          Evaluates A calls values grad ⟨elem, source⟩ g →
          ∃ a, Evaluates A calls values e ⟨elem, target⟩ a ∧
            ∀ x, inner source (broadcastFrom target x) g = inner target x a) ∧
    (¬ BroadcastsTo target source →
      ∃ failure, unbroadcast grad ⟨elem, source⟩ ⟨elem, target⟩ = .error failure) := by
  constructor
  · intro h
    obtain ⟨e, hok⟩ : ∃ e, unbroadcast grad ⟨elem, source⟩ ⟨elem, target⟩ = .ok e :=
      exists_unbroadcast_iff.mpr ⟨rfl, h⟩
    refine ⟨e, hok, fun R _ A calls values g hg => ?_⟩
    exact ⟨_, evaluates_unbroadcast helem hok hg, fun x => inner_broadcastFrom h x g⟩
  · intro h
    cases hresult : unbroadcast grad ⟨elem, source⟩ ⟨elem, target⟩ with
    | error failure => exact ⟨failure, rfl⟩
    | ok e => exact absurd (exists_unbroadcast_iff.mp ⟨e, hresult⟩).2 h

/-- A leading axis and two unit axes. -/
theorem unbroadcast_adjoint_unitAxes :
    ∃ e, unbroadcast (.var "g") ⟨.f32, [2, 3, 5, 4]⟩ ⟨.f32, [1, 1, 4]⟩ = .ok e ∧
      ∀ (R : Type) [CommRing R] (A : Arithmetic R) (calls : Calls (Tensor R))
        (values : Env (Tensor R)) (g : List ℕ → R),
        Evaluates A calls values (.var "g") ⟨.f32, [2, 3, 5, 4]⟩ g →
        ∃ a, Evaluates A calls values e ⟨.f32, [1, 1, 4]⟩ a ∧
          ∀ x, inner [2, 3, 5, 4] (broadcastFrom [1, 1, 4] x) g = inner [1, 1, 4] x a :=
  (@unbroadcast_adjoint.{0} .f32 rfl [2, 3, 5, 4] [1, 1, 4] (.var "g")).1 (by decide)

end Knok.Autograd
