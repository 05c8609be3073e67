import Mathlib

/-!
# Machines

A machine takes a step for each event, or refuses it.  What its steps keep,
its runs keep.
-/

namespace Control

universe u v

variable {State : Type u} {Event : Type v}

/-- Handles events one after the other. -/
def runEvents (step : State → Event → Option State) : List Event → State → Option State
  | [], s => some s
  | e :: events, s => (step s e).bind (runEvents step events)

variable {step : State → Event → Option State}

/-- What every step keeps on the events of a run, the run keeps.  The property may
depend on how many events there were. -/
theorem runEvents_induction {P : ℕ → State → Prop} {allowed : Event → Prop} {bound : ℕ}
    (hstep : ∀ n s e s', n < bound → allowed e → P n s → step s e = some s' → P (n + 1) s') :
    ∀ {events : List Event} {n : ℕ} {s s' : State}, n + events.length ≤ bound →
      (∀ e ∈ events, allowed e) → P n s → runEvents step events s = some s' →
      P (n + events.length) s' := by
  intro events
  induction events with
  | nil =>
      intro n s s' _ _ hs hrun
      obtain rfl := Option.some.inj hrun
      exact hs
  | cons e events ih =>
      intro n s s' hbound hallowed hs hrun
      obtain ⟨mid, hmid, hrest⟩ := Option.bind_eq_some_iff.mp hrun
      rw [List.length_cons] at hbound ⊢
      have hkept := hstep n s e mid (by omega) (hallowed e List.mem_cons_self) hs hmid
      rw [Nat.add_comm events.length, ← Nat.add_assoc]
      exact ih (by omega) (fun e he => hallowed e (List.mem_cons_of_mem _ he)) hkept hrest

/-- What every step keeps, every run keeps. -/
theorem runEvents_invariant {P : State → Prop} {allowed : Event → Prop}
    (hstep : ∀ s e s', allowed e → P s → step s e = some s' → P s') {events : List Event}
    {s s' : State} (hallowed : ∀ e ∈ events, allowed e) (hs : P s)
    (hrun : runEvents step events s = some s') : P s' :=
  runEvents_induction (P := fun _ => P) (fun _ s e s' _ => hstep s e s') (n := 0) le_rfl
    hallowed hs hrun

end Control
