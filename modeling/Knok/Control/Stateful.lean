import Mathlib

/-!
# Computations that fail and keep their state

`Stateful σ ε α` is a computation that reads and writes a state `σ` and may stop
with an error; the state it has reached is there in both cases.  Two judgements
about such a computation:

* `Keeps R m`: whatever happens, the states before and after are related by `R`
  (a frame property when `R` says what is unchanged);
* `Simulates P m d Q`: from a state that satisfies `P`, the computation fails
  exactly as the stateless computation `d` does, and successes are related by
  `Q`.

Both compose along `bind`, so each is proved once for each primitive step and
carried over a program by its own recursion.
-/

namespace Control

variable {σ τ ε α β : Type}

/-- A computation whose state survives a failure. -/
abbrev Stateful (σ ε α : Type) := ExceptT ε (StateM σ) α

/-- The result and the state that a computation ends with. -/
def exec (m : Stateful σ ε α) (s : σ) : Except ε α × σ := m.run.run s

@[simp] theorem exec_pure (a : α) (s : σ) :
    exec (pure a : Stateful σ ε α) s = (.ok a, s) := rfl

@[simp] theorem exec_throw (e : ε) (s : σ) :
    exec (throw e : Stateful σ ε α) s = (.error e, s) := rfl

@[simp] theorem exec_get (s : σ) : exec (get : Stateful σ ε σ) s = (.ok s, s) := rfl

@[simp] theorem exec_modify (f : σ → σ) (s : σ) :
    exec (modify f : Stateful σ ε PUnit) s = (.ok ⟨⟩, f s) := rfl

@[simp] theorem exec_liftM (x : Except ε α) (s : σ) :
    exec (liftM x : Stateful σ ε α) s = (x, s) := by
  cases x <;> rfl

theorem exec_bind (m : Stateful σ ε α) (f : α → Stateful σ ε β) (s : σ) :
    exec (m >>= f) s =
      match exec m s with
      | (.ok a, s') => exec (f a) s'
      | (.error e, s') => (.error e, s') := by
  simp only [exec, ExceptT.run_bind, StateT.run_bind]
  change (match (m.run.run s : Except ε α × σ).1 with
    | .ok a => (f a).run
    | .error e => (pure (.error e) : StateM σ (Except ε β))).run _ = _
  rcases m.run.run s with ⟨result, s'⟩
  cases result <;> rfl

theorem exec_bind_ok {m : Stateful σ ε α} {f : α → Stateful σ ε β} {s s' : σ} {a : α}
    (h : exec m s = (.ok a, s')) : exec (m >>= f) s = exec (f a) s' := by
  rw [exec_bind, h]

theorem exec_bind_error {m : Stateful σ ε α} {f : α → Stateful σ ε β} {s s' : σ} {e : ε}
    (h : exec m s = (.error e, s')) : exec (m >>= f) s = (.error e, s') := by
  rw [exec_bind, h]

@[simp] theorem exec_get_bind (f : σ → Stateful σ ε α) (s : σ) :
    exec (get >>= f) s = exec (f s) s :=
  exec_bind_ok (exec_get s)

@[simp] theorem exec_modify_bind (g : σ → σ) (f : PUnit → Stateful σ ε α) (s : σ) :
    exec (modify g >>= f) s = exec (f ⟨⟩) (g s) :=
  exec_bind_ok (exec_modify g s)

/-! ## What a computation leaves unchanged -/

/-- The state before and the state after are related, on success and failure. -/
def Keeps (R : σ → σ → Prop) (m : Stateful σ ε α) : Prop :=
  ∀ s, R s (exec m s).2

namespace Keeps

variable {R : σ → σ → Prop} [IsPreorder σ R]

theorem of_pure (a : α) : Keeps R (pure a : Stateful σ ε α) :=
  refl_of R

theorem of_throw (e : ε) : Keeps R (throw e : Stateful σ ε α) :=
  refl_of R

theorem of_liftM (x : Except ε α) : Keeps R (liftM x : Stateful σ ε α) := by
  intro s
  rw [exec_liftM]
  exact refl_of R s

theorem bind {m : Stateful σ ε α} {f : α → Stateful σ ε β} (hm : Keeps R m)
    (hf : ∀ a, Keeps R (f a)) : Keeps R (m >>= f) := by
  intro s
  have hfirst := hm s
  rw [exec_bind]
  rcases hrun : exec m s with ⟨result, s'⟩
  rw [hrun] at hfirst
  cases result with
  | error e => exact hfirst
  | ok a => exact trans_of R hfirst (hf a s')

theorem of_mapM {f : α → Stateful σ ε β} {xs : List α} (h : ∀ x ∈ xs, Keeps R (f x)) :
    Keeps R (xs.mapM f) := by
  induction xs with
  | nil => exact of_pure []
  | cons x xs ih =>
      rw [List.mapM_cons]
      refine (h x (List.mem_cons_self ..)).bind fun y => ?_
      exact (ih fun z hz => h z (List.mem_cons_of_mem _ hz)).bind fun ys => of_pure (y :: ys)

end Keeps

/-! ## What a computation computes -/

/-- From a state that satisfies `P` the computation fails exactly when `d` does
and with the same error, and when both succeed their results and the state that
is left satisfy `Q`. -/
def Simulates (P : σ → Prop) (m : Stateful σ ε α) (d : Except ε β)
    (Q : α → β → σ → Prop) : Prop :=
  ∀ s, P s →
    (∃ a b s', exec m s = (.ok a, s') ∧ d = .ok b ∧ Q a b s') ∨
      ∃ e s', exec m s = (.error e, s') ∧ d = .error e

/-- The two results are equal and the state satisfies `P`. -/
def Same (P : σ → Prop) : α → α → σ → Prop := fun a b s => a = b ∧ P s

namespace Simulates

variable {P : σ → Prop} {Q : α → β → σ → Prop}

theorem of_pure {a : α} {b : β} (h : ∀ s, P s → Q a b s) :
    Simulates P (pure a : Stateful σ ε α) (.ok b) Q :=
  fun s hs => .inl ⟨a, b, s, rfl, rfl, h s hs⟩

theorem of_throw {e : ε} : Simulates P (throw e : Stateful σ ε α) (.error e) Q :=
  fun s _ => .inr ⟨e, s, rfl, rfl⟩

theorem of_liftM {x : Except ε α} : Simulates P (liftM x : Stateful σ ε α) x (Same P) := by
  intro s hs
  cases x with
  | error e => exact .inr ⟨e, s, rfl, rfl⟩
  | ok a => exact .inl ⟨a, a, s, rfl, rfl, rfl, hs⟩

theorem bind {γ δ : Type} {R : γ → δ → σ → Prop} {m : Stateful σ ε α} {d : Except ε β}
    {f : α → Stateful σ ε γ} {g : β → Except ε δ} (hm : Simulates P m d Q)
    (hf : ∀ a b, Simulates (Q a b) (f a) (g b) R) : Simulates P (m >>= f) (d >>= g) R := by
  intro s hs
  obtain ⟨a, b, s', hrun, rfl, hQ⟩ | ⟨e, s', hrun, rfl⟩ := hm s hs
  · rw [exec_bind_ok hrun]
    exact hf a b s' hQ
  · exact .inr ⟨e, s', exec_bind_error hrun, rfl⟩

/-- The continuation sees one result on both sides. -/
theorem bind_same {γ δ : Type} {I : σ → Prop} {R : γ → δ → σ → Prop}
    {m : Stateful σ ε α} {d : Except ε α} {f : α → Stateful σ ε γ} {g : α → Except ε δ}
    (hm : Simulates P m d (Same I)) (hf : ∀ a, Simulates I (f a) (g a) R) :
    Simulates P (m >>= f) (d >>= g) R := by
  refine hm.bind fun a b => ?_
  rintro s ⟨rfl, hs⟩
  exact hf a s hs

theorem weaken {P' : σ → Prop} {Q' : α → β → σ → Prop} {m : Stateful σ ε α}
    {d : Except ε β} (h : Simulates P m d Q) (hP : ∀ s, P' s → P s)
    (hQ : ∀ a b s, Q a b s → Q' a b s) : Simulates P' m d Q' := by
  intro s hs
  obtain ⟨a, b, s', hrun, hd, hpost⟩ | hfail := h s (hP s hs)
  · exact .inl ⟨a, b, s', hrun, hd, hQ a b s' hpost⟩
  · exact .inr hfail

/-- A traversal, one element after the other. -/
theorem of_mapM {γ : Type} {f : γ → Stateful σ ε α} {g : γ → Except ε α} {xs : List γ}
    (h : ∀ x ∈ xs, Simulates P (f x) (g x) (Same P)) :
    Simulates P (xs.mapM f) (xs.mapM g) (Same P) := by
  induction xs with
  | nil => exact of_pure fun s hs => ⟨rfl, hs⟩
  | cons x xs ih =>
      rw [List.mapM_cons, List.mapM_cons]
      refine (h x (List.mem_cons_self ..)).bind_same fun y => ?_
      exact (ih fun z hz => h z (List.mem_cons_of_mem _ hz)).bind_same fun ys =>
        of_pure fun s hs => ⟨rfl, hs⟩

/-- What a computation keeps may be used in its postcondition. -/
theorem with_keeps {R : σ → σ → Prop} {P' : σ → Prop} {Q' : α → β → σ → Prop}
    {m : Stateful σ ε α} {d : Except ε β} (h : Simulates P m d Q) (hkeeps : Keeps R m)
    (hP : ∀ s, P' s → P s) (hQ : ∀ s a b s', P' s → R s s' → Q a b s' → Q' a b s') :
    Simulates P' m d Q' := by
  intro s hs
  obtain ⟨a, b, s', hrun, hd, hpost⟩ | hfail := h s (hP s hs)
  · have hR := hkeeps s
    rw [hrun] at hR
    exact .inl ⟨a, b, s', hrun, hd, hQ s a b s' hs hR hpost⟩
  · exact .inr hfail

/-- Equal results are the result of the stateless computation. -/
theorem result_eq {I : σ → Prop} {m : Stateful σ ε α} {d : Except ε α}
    (h : Simulates P m d (Same I)) {s : σ} (hs : P s) : (exec m s).1 = d := by
  obtain ⟨a, b, s', hrun, rfl, rfl, -⟩ | ⟨e, s', hrun, rfl⟩ := h s hs
  · rw [hrun]
  · rw [hrun]

end Simulates

end Control
