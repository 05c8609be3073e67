import Mathlib

/-!
# Inversion rules for checked computations

Runs of `Option`, of `Except ε` and of `StateT σ (Except ε)`, read backwards:
what a successful run says about its parts.  The first two monads are those of
partial functions and of validations whose first failing check wins; the third
threads a table that is lost when the computation fails.
-/

namespace Control

universe u v

/-! ## `Option` -/

section Option

variable {α : Type v} {β : Type u}

/-- A traversal succeeds when it succeeds at each element. -/
theorem option_mapM_eq_some_iff {f : α → Option β} {xs : List α} :
    ∀ {ys : List β}, xs.mapM f = some ys ↔ List.Forall₂ (fun x y => f x = some y) xs ys := by
  induction xs with
  | nil =>
      intro ys
      simp only [List.mapM_nil, Option.pure_def, Option.some.injEq, List.forall₂_nil_left_iff]
      exact eq_comm
  | cons x xs ih =>
      intro ys
      simp only [List.mapM_cons, Option.bind_eq_bind, Option.bind_eq_some_iff,
        Option.pure_def, Option.some.injEq, ih]
      constructor
      · rintro ⟨y, hy, ys', hys, rfl⟩
        exact .cons hy hys
      · intro h
        cases h with
        | cons hy hys => exact ⟨_, hy, _, hys, rfl⟩

/-- Each element of a traversal that succeeds has a result. -/
theorem exists_eq_some_of_mapM {f : α → Option β} {xs : List α} {ys : List β}
    (h : xs.mapM f = some ys) {x : α} (hx : x ∈ xs) : ∃ y, f x = some y := by
  induction xs generalizing ys with
  | nil => cases hx
  | cons z xs ih =>
      obtain ⟨y, ys', hy, hys, -⟩ :=
        List.forall₂_cons_left_iff.mp (option_mapM_eq_some_iff.mp h)
      rcases List.mem_cons.mp hx with rfl | hx
      · exact ⟨y, hy⟩
      · exact ih (option_mapM_eq_some_iff.mpr hys) hx

/-- A result of a traversal comes from an element. -/
theorem exists_mem_of_mapM {f : α → Option β} {xs : List α} {ys : List β}
    (h : xs.mapM f = some ys) {y : β} (hy : y ∈ ys) : ∃ x ∈ xs, f x = some y := by
  have hall := option_mapM_eq_some_iff.mp h
  clear h
  induction hall with
  | nil => cases hy
  | cons hfirst _ ih =>
      rcases List.mem_cons.mp hy with rfl | hy
      · exact ⟨_, List.mem_cons_self .., hfirst⟩
      · obtain ⟨x, hx, hfx⟩ := ih hy
        exact ⟨x, List.mem_cons_of_mem _ hx, hfx⟩

theorem option_mapM_congr {f g : α → Option β} {xs : List α}
    (h : ∀ x ∈ xs, f x = g x) : xs.mapM f = xs.mapM g := by
  induction xs with
  | nil => rfl
  | cons x xs ih =>
      rw [List.mapM_cons, List.mapM_cons, h x (List.mem_cons_self ..),
        ih fun y hy => h y (List.mem_cons_of_mem _ hy)]

end Option

/-! ## `Except` -/

section Except

variable {ε α β : Type u}

@[simp] theorem except_bind_eq_ok_iff {x : Except ε α} {f : α → Except ε β} {b : β} :
    (x >>= f) = .ok b ↔ ∃ a, x = .ok a ∧ f a = .ok b := by
  cases x <;> simp [bind, Except.bind]

@[simp] theorem except_pure_eq_ok_iff {a b : α} :
    (pure a : Except ε α) = .ok b ↔ a = b := by
  simp [pure, Except.pure]

@[simp] theorem except_throw_eq_ok_iff {e : ε} {a : α} :
    (throw e : Except ε α) = .ok a ↔ False := by
  simp [throw, throwThe, MonadExceptOf.throw]

@[simp] theorem except_map_eq_ok_iff {x : Except ε α} {f : α → β} {b : β} :
    (f <$> x) = .ok b ↔ ∃ a, x = .ok a ∧ f a = b := by
  cases x <;> simp [Functor.map, Except.map]

/-- A traversal succeeds when it succeeds at each element. -/
theorem except_mapM_eq_ok_iff {f : α → Except ε β} {xs : List α} :
    ∀ {ys : List β}, xs.mapM f = .ok ys ↔ List.Forall₂ (fun x y => f x = .ok y) xs ys := by
  induction xs with
  | nil =>
      intro ys
      simp only [List.mapM_nil, except_pure_eq_ok_iff, List.forall₂_nil_left_iff]
      exact eq_comm
  | cons x xs ih =>
      intro ys
      simp only [List.mapM_cons, except_bind_eq_ok_iff, except_pure_eq_ok_iff, ih]
      constructor
      · rintro ⟨y, hy, ys', hys, rfl⟩
        exact .cons hy hys
      · intro h
        cases h with
        | cons hy hys => exact ⟨_, hy, _, hys, rfl⟩

/-- Each element of a traversal that succeeds has a result. -/
theorem exists_eq_ok_of_mapM {f : α → Except ε β} {xs : List α} {ys : List β}
    (h : xs.mapM f = .ok ys) {x : α} (hx : x ∈ xs) : ∃ y, f x = .ok y := by
  induction xs generalizing ys with
  | nil => cases hx
  | cons z xs ih =>
      obtain ⟨y, ys', hy, hys, -⟩ :=
        List.forall₂_cons_left_iff.mp (except_mapM_eq_ok_iff.mp h)
      rcases List.mem_cons.mp hx with rfl | hx
      · exact ⟨y, hy⟩
      · exact ih (except_mapM_eq_ok_iff.mpr hys) hx

/-- What an element of a traversal gives is among the results. -/
theorem mem_of_mapM {f : α → Except ε β} {xs : List α} {ys : List β} (h : xs.mapM f = .ok ys)
    {x : α} {y : β} (hx : x ∈ xs) (hy : f x = .ok y) : y ∈ ys := by
  induction xs generalizing ys with
  | nil => cases hx
  | cons z xs ih =>
      obtain ⟨y', ys', hy', hys, rfl⟩ :=
        List.forall₂_cons_left_iff.mp (except_mapM_eq_ok_iff.mp h)
      rcases List.mem_cons.mp hx with rfl | hx
      · obtain rfl := Except.ok.inj (hy.symm.trans hy')
        exact List.mem_cons_self
      · exact List.mem_cons_of_mem _ (ih (except_mapM_eq_ok_iff.mpr hys) hx)

/-- A result of a traversal that succeeds comes from an element. -/
theorem exists_mem_of_mapM_ok {f : α → Except ε β} {xs : List α} {ys : List β}
    (h : xs.mapM f = .ok ys) {y : β} (hy : y ∈ ys) : ∃ x ∈ xs, f x = .ok y := by
  have hall := except_mapM_eq_ok_iff.mp h
  clear h
  induction hall with
  | nil => cases hy
  | cons hfirst _ ih =>
      rcases List.mem_cons.mp hy with rfl | hy
      · exact ⟨_, List.mem_cons_self .., hfirst⟩
      · obtain ⟨x, hx, hfx⟩ := ih hy
        exact ⟨x, List.mem_cons_of_mem _ hx, hfx⟩

/-- A traversal of successful computations succeeds. -/
theorem except_mapM_of_forall {f : α → Except ε β} {g : α → β} {xs : List α}
    (h : ∀ x ∈ xs, f x = .ok (g x)) : xs.mapM f = .ok (xs.map g) := by
  rw [except_mapM_eq_ok_iff, List.forall₂_map_right_iff, List.forall₂_same]
  exact h

@[simp] theorem except_toOption_eq_some_iff {x : Except ε α} {a : α} :
    x.toOption = some a ↔ x = .ok a := by
  cases x <;> simp [Except.toOption]

end Except

/-! ## `StateT` over `Except` -/

section StateT

variable {σ ε α β : Type u}

@[simp] theorem stateT_bind_eq_ok_iff {x : StateT σ (Except ε) α}
    {f : α → StateT σ (Except ε) β} {s : σ} {r : β × σ} :
    (x >>= f).run s = .ok r ↔ ∃ a s', x.run s = .ok (a, s') ∧ (f a).run s' = .ok r := by
  rw [StateT.run_bind, except_bind_eq_ok_iff, Prod.exists]

@[simp] theorem stateT_pure_eq_ok_iff {a : α} {s : σ} {r : α × σ} :
    (pure a : StateT σ (Except ε) α).run s = .ok r ↔ (a, s) = r := by
  rw [StateT.run_pure, except_pure_eq_ok_iff]

@[simp] theorem stateT_lift_eq_ok_iff {x : Except ε α} {s : σ} {r : α × σ} :
    (liftM x : StateT σ (Except ε) α).run s = .ok r ↔ x = .ok r.1 ∧ r.2 = s := by
  obtain ⟨a, s'⟩ := r
  have hrun : (liftM x : StateT σ (Except ε) α).run s = x >>= fun a => .ok (a, s) := by
    cases x <;> rfl
  rw [hrun, except_bind_eq_ok_iff]
  simp [eq_comm]

@[simp] theorem stateT_get_eq_ok_iff {s : σ} {r : σ × σ} :
    (get : StateT σ (Except ε) σ).run s = .ok r ↔ (s, s) = r := by
  rw [StateT.run_get, except_pure_eq_ok_iff]

@[simp] theorem stateT_set_eq_ok_iff {s t : σ} {r : PUnit × σ} :
    (set t : StateT σ (Except ε) PUnit).run s = .ok r ↔ (PUnit.unit, t) = r := by
  rw [StateT.run_set, except_pure_eq_ok_iff]

@[simp] theorem stateT_modify_eq_ok_iff {f : σ → σ} {s : σ} {r : PUnit × σ} :
    (modify f : StateT σ (Except ε) PUnit).run s = .ok r ↔ (PUnit.unit, f s) = r := by
  rw [StateT.run_modify, except_pure_eq_ok_iff]

@[simp] theorem stateT_throw_eq_ok_iff {e : ε} {s : σ} {r : α × σ} :
    (throw e : StateT σ (Except ε) α).run s = .ok r ↔ False := by
  simp [throw, throwThe, MonadExceptOf.throw, StateT.run, StateT.lift, bind, Except.bind]

/-- A successful run takes the state along `R`. -/
def Moves (R : σ → σ → Prop) (m : StateT σ (Except ε) α) : Prop :=
  ∀ s a s', m.run s = .ok (a, s') → R s s'

namespace Moves

variable {R : σ → σ → Prop}

theorem of_throw (e : ε) : Moves R (throw e : StateT σ (Except ε) α) := by
  intro s a s' hrun
  exact absurd hrun (by simp)

theorem of_modify {f : σ → σ} (h : ∀ s, R s (f s)) :
    Moves R (modify f : StateT σ (Except ε) PUnit) := by
  intro s a s' hrun
  cases stateT_modify_eq_ok_iff.mp hrun
  exact h s

variable [IsPreorder σ R]

theorem of_pure (a : α) : Moves R (pure a : StateT σ (Except ε) α) := by
  intro s b s' hrun
  cases stateT_pure_eq_ok_iff.mp hrun
  exact refl_of R s

theorem of_lift (x : Except ε α) : Moves R (liftM x : StateT σ (Except ε) α) := by
  intro s a s' hrun
  obtain ⟨-, rfl⟩ := stateT_lift_eq_ok_iff.mp hrun
  exact refl_of R _

theorem of_get : Moves R (get : StateT σ (Except ε) σ) := by
  intro s a s' hrun
  cases stateT_get_eq_ok_iff.mp hrun
  exact refl_of R s

theorem bind {m : StateT σ (Except ε) α} {f : α → StateT σ (Except ε) β}
    (hm : Moves R m) (hf : ∀ a, Moves R (f a)) : Moves R (m >>= f) := by
  intro s b s' hrun
  obtain ⟨a, mid, hfirst, hrest⟩ := stateT_bind_eq_ok_iff.mp hrun
  exact trans_of R (hm s a mid hfirst) (hf a mid b s' hrest)

/-- A check before a computation. -/
theorem guarded {C : Prop} [Decidable C] {m : StateT σ (Except ε) α} (h : Moves R m) (e : ε) :
    Moves R (do
      if C then throw e
      m) := by
  split
  · exact (of_throw e).bind fun _ => h
  · exact h

theorem of_mapM {γ : Type v} {f : γ → StateT σ (Except ε) α} {xs : List γ}
    (h : ∀ x ∈ xs, Moves R (f x)) : Moves R (xs.mapM f) := by
  induction xs with
  | nil => exact of_pure []
  | cons x xs ih =>
      rw [List.mapM_cons]
      refine (h x (List.mem_cons_self ..)).bind fun y => ?_
      exact (ih fun z hz => h z (List.mem_cons_of_mem _ hz)).bind fun ys => of_pure _

end Moves

end StateT

end Control
