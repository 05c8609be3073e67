import Mathlib
import Knok.MovementRule

/-!
# The rule of `unsqueeze`

An unsqueeze may insert unit dimensions anywhere.  The rule compares the target
without its unit dimensions with the input, which is a test of insertion only for
inputs that have no unit dimension themselves.
-/

namespace Knok

open Control

/-- The shape is obtained from another by inserting unit dimensions, zero or more,
at any positions. -/
inductive InsertsUnits (input : List ℕ) : List ℕ → Prop
  | refl : InsertsUnits input input
  | insert {target : List ℕ} (position : ℕ) (hposition : position ≤ target.length)
      (h : InsertsUnits input target) : InsertsUnits input (target.insertIdx position 1)

theorem withoutSingletons_insertIdx (shape : List ℕ) (position : ℕ) :
    withoutSingletons (shape.insertIdx position 1) = withoutSingletons shape := by
  unfold withoutSingletons
  induction shape generalizing position with
  | nil => cases position <;> rfl
  | cons dim shape ih =>
      cases position with
      | zero => rfl
      | succ position => rw [List.insertIdx_succ_cons, List.filter_cons, List.filter_cons, ih]

namespace InsertsUnits

variable {input target : List ℕ}

theorem sublist (h : InsertsUnits input target) : input.Sublist target := by
  induction h with
  | refl => exact List.Sublist.refl input
  | insert position _ _ ih => exact ih.trans (List.sublist_insertIdx _ position 1)

theorem withoutSingletons_eq (h : InsertsUnits input target) :
    withoutSingletons target = withoutSingletons input := by
  induction h with
  | refl => rfl
  | insert position _ _ ih => rw [withoutSingletons_insertIdx, ih]

theorem cons (h : InsertsUnits input target) (dim : ℕ) :
    InsertsUnits (dim :: input) (dim :: target) := by
  induction h with
  | refl => exact .refl
  | @insert target position hposition _ ih =>
      have hposition' : position + 1 ≤ (dim :: target).length := Nat.succ_le_succ hposition
      exact ih.insert (position + 1) hposition'

theorem unit (h : InsertsUnits input target) : InsertsUnits input (1 :: target) :=
  h.insert 0 (Nat.zero_le _)

end InsertsUnits

/-- **Insertion, as a test**: the input is a sublist of the target, with the same
dimensions other than one. -/
theorem insertsUnits_iff {input target : List ℕ} :
    InsertsUnits input target ↔
      input.Sublist target ∧ withoutSingletons target = withoutSingletons input := by
  refine ⟨fun h => ⟨h.sublist, h.withoutSingletons_eq⟩, ?_⟩
  rintro ⟨hsub, hkept⟩
  induction hsub with
  | slnil => exact .refl
  | @cons input target dim hsub ih =>
      by_cases hdim : dim = 1
      · subst hdim
        exact (ih hkept).unit
      · have hle := (hsub.filter (· != 1)).length_le
        rw [withoutSingletons, List.filter_cons_of_pos (by simpa using hdim)] at hkept
        have hlen := congrArg List.length hkept
        rw [List.length_cons, withoutSingletons] at hlen
        omega
  | @cons_cons input target dim hsub ih =>
      refine (ih ?_).cons dim
      unfold withoutSingletons at hkept ⊢
      rw [List.filter_cons, List.filter_cons] at hkept
      split_ifs at hkept with hdim
      · exact (List.cons.inj hkept).2
      · exact hkept

instance (input target : List ℕ) : Decidable (InsertsUnits input target) :=
  decidable_of_iff _ insertsUnits_iff.symm

/-- What the rule accepts. -/
theorem validateUnsqueeze_eq_ok_iff {input target : TensorType} :
    validateUnsqueeze input target = .ok () ↔
      input.elem = target.elem ∧
        (withoutSingletons target.shape = input.shape ∨
          input.shape = [1] ∧ withoutSingletons target.shape = []) := by
  simp only [validateUnsqueeze, except_bind_eq_ok_iff, failIf_eq_ok_iff, bne_eq_false_iff_eq,
    exists_const, Bool.not_eq_false', Bool.or_eq_true, beq_iff_eq]
  refine and_congr_right fun _ => ?_
  by_cases hone : input.shape = [1]
  · simp [hone]
  · simp [hone]

/-- The rule accepts exactly the insertions of unit dimensions. -/
def UnsqueezeExact (input target : TensorType) : Prop :=
  validateUnsqueeze input target = .ok () ↔
    input.elem = target.elem ∧ InsertsUnits input.shape target.shape

theorem one_not_mem_withoutSingletons (shape : List ℕ) : 1 ∉ withoutSingletons shape := by
  simp [withoutSingletons]

theorem withoutSingletons_of_not_mem {shape : List ℕ} (h : 1 ∉ shape) :
    withoutSingletons shape = shape := by
  refine List.filter_eq_self.mpr fun dim hdim => ?_
  have hne : dim ≠ 1 := fun hone => h (hone ▸ hdim)
  simpa using hne

/-- Only the empty shape and shapes of ones have nothing but unit dimensions. -/
theorem one_mem_of_withoutSingletons_eq_nil {shape : List ℕ} (h : withoutSingletons shape = [])
    (hne : shape ≠ []) : 1 ∈ shape := by
  obtain ⟨dim, rest, rfl⟩ := List.exists_cons_of_ne_nil hne
  have hone : dim = 1 := by
    have := List.filter_eq_nil_iff.mp h dim List.mem_cons_self
    simpa using this
  exact hone ▸ List.mem_cons_self

/-- **When the rule of `unsqueeze` is exact.**  It wrongly accepts the empty shape
for the input shape `[1]`, and it wrongly rejects the insertions into any other
shape that has a unit dimension already. -/
theorem unsqueezeExact_iff (input target : TensorType) :
    UnsqueezeExact input target ↔
      input.elem ≠ target.elem ∨ 1 ∉ input.shape ∨
        input.shape = [1] ∧ target.shape ≠ [] ∨
        input.shape ≠ [1] ∧ ¬ (input.shape.Sublist target.shape ∧
          withoutSingletons target.shape = withoutSingletons input.shape) := by
  unfold UnsqueezeExact
  rw [validateUnsqueeze_eq_ok_iff, insertsUnits_iff]
  by_cases helem : input.elem = target.elem
  · simp only [helem, true_and, ne_eq, not_true_eq_false, false_or]
    by_cases hunit : 1 ∈ input.shape
    · have hreject : withoutSingletons target.shape ≠ input.shape := fun h =>
        one_not_mem_withoutSingletons target.shape (h ▸ hunit)
      by_cases hone : input.shape = [1]
      · have hinput : withoutSingletons [1] = [] := rfl
        simp only [hone, hinput, List.singleton_sublist, true_and, not_true_eq_false, false_and,
          or_false, List.mem_singleton, false_or]
        constructor
        · rintro hiff hnil
          have hmem := (hiff.mp (.inr (by rw [hnil]; rfl))).1
          rw [hnil] at hmem
          exact absurd hmem List.not_mem_nil
        · intro hne
          constructor
          · rintro (h | h)
            · exact absurd (hone ▸ h) hreject
            · exact ⟨one_mem_of_withoutSingletons_eq_nil h hne, h⟩
          · exact fun h => .inr h.2
      · simp only [hreject, hone, hunit, false_and, or_false, not_true_eq_false, not_false_eq_true,
          true_and, false_or, false_iff]
    · have hself := withoutSingletons_of_not_mem hunit
      have hne : input.shape ≠ [1] := fun h => hunit (h ▸ List.mem_cons_self)
      simp only [hunit, not_false_eq_true, true_or, iff_true, hself, hne, false_and, or_false]
      constructor
      · intro h
        refine ⟨?_, h⟩
        rw [← h]
        exact List.filter_sublist
      · exact fun h => h.2
  · simp [helem]

/-- The rule rejects a shape with a unit dimension as its own target. -/
theorem not_unsqueezeExact_row : ¬ UnsqueezeExact ⟨.f32, [1, 3]⟩ ⟨.f32, [1, 1, 3]⟩ := by
  unfold UnsqueezeExact
  decide

end Knok
