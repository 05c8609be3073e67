import Mathlib

/-!
# Partial joins

An order in which two elements with an upper bound have a least one has a partial
operation that returns it.  The operation is commutative, idempotent and
associative, definedness included: a nested join in either grouping is the least
upper bound of all its operands.

### Design decisions

* **Relations.**  The order is a relation, not an instance, so that a type that
  already has an order (lists, lexicographically) can have another.
* **Least upper bounds** of a list of elements are `LeastAbove`; the laws follow
  from what the bound of a list does not depend on.
-/

namespace PartialJoin

variable {α : Type*}

/-- The least element above all elements of a list. -/
def LeastAbove (r : α → α → Prop) (xs : List α) (d : α) : Prop :=
  (∀ x ∈ xs, r x d) ∧ ∀ e, (∀ x ∈ xs, r x e) → r d e

/-- The operation returns an upper bound below every other one, and it returns
one whenever there is one. -/
structure IsPartialJoin (r : α → α → Prop) (join : α → α → Option α) : Prop where
  refl : ∀ a, r a a
  trans : ∀ {a b c}, r a b → r b c → r a c
  antisymm : ∀ {a b}, r a b → r b a → a = b
  upper : ∀ {a b c}, join a b = some c → r a c ∧ r b c
  least : ∀ {a b d}, r a d → r b d → ∃ c, join a b = some c ∧ r c d

namespace IsPartialJoin

variable {r : α → α → Prop} {join : α → α → Option α} {a b c d e : α}

/-- A join is the least upper bound. -/
theorem eq_some_iff (h : IsPartialJoin r join) :
    join a b = some c ↔ LeastAbove r [a, b] c := by
  have hbound : ∀ d, (∀ x ∈ [a, b], r x d) ↔ r a d ∧ r b d := by simp
  constructor
  · intro hjoin
    refine ⟨(hbound c).mpr (h.upper hjoin), fun d hd => ?_⟩
    obtain ⟨had, hbd⟩ := (hbound d).mp hd
    obtain ⟨c', hjoin', hcd⟩ := h.least had hbd
    rw [hjoin] at hjoin'
    rwa [Option.some.inj hjoin']
  · rintro ⟨hupper, hleast⟩
    obtain ⟨hac, hbc⟩ := (hbound c).mp hupper
    obtain ⟨c', hjoin, hcc⟩ := h.least hac hbc
    have hcc' := hleast c' ((hbound c').mpr (h.upper hjoin))
    rw [hjoin, h.antisymm hcc hcc']

/-- A nested join is the least upper bound of its three operands. -/
theorem bind_eq_some_iff (h : IsPartialJoin r join) :
    ((join a b).bind fun ab => join ab c) = some d ↔ LeastAbove r [a, b, c] d := by
  have hbound : ∀ e, (∀ x ∈ [a, b, c], r x e) ↔ (r a e ∧ r b e) ∧ r c e := by simp [and_assoc]
  rw [Option.bind_eq_some_iff]
  constructor
  · rintro ⟨ab, hab, hjoin⟩
    obtain ⟨haab, hbab⟩ := h.upper hab
    obtain ⟨habd, hcd⟩ := h.upper hjoin
    refine ⟨(hbound d).mpr ⟨⟨h.trans haab habd, h.trans hbab habd⟩, hcd⟩, fun e he => ?_⟩
    obtain ⟨⟨hae, hbe⟩, hce⟩ := (hbound e).mp he
    have habe := (h.eq_some_iff.mp hab).2 e (by simp [hae, hbe])
    exact (h.eq_some_iff.mp hjoin).2 e (by simp [habe, hce])
  · rintro ⟨hupper, hleast⟩
    obtain ⟨⟨had, hbd⟩, hcd⟩ := (hbound d).mp hupper
    obtain ⟨ab, hab, habd⟩ := h.least had hbd
    obtain ⟨d', hjoin, hdd⟩ := h.least habd hcd
    obtain ⟨habd', hcd'⟩ := h.upper hjoin
    obtain ⟨haab, hbab⟩ := h.upper hab
    have hdd' := hleast d'
      ((hbound d').mpr ⟨⟨h.trans haab habd', h.trans hbab habd'⟩, hcd'⟩)
    exact ⟨ab, hab, by rw [hjoin, h.antisymm hdd hdd']⟩

/-- The bound of a list depends only on its elements. -/
theorem leastAbove_congr {xs ys : List α} (h : ∀ x, x ∈ xs ↔ x ∈ ys) :
    LeastAbove r xs d ↔ LeastAbove r ys d := by
  simp only [LeastAbove, h]

theorem comm (h : IsPartialJoin r join) (a b : α) : join a b = join b a := by
  ext c
  rw [h.eq_some_iff, h.eq_some_iff]
  exact leastAbove_congr (by simp [or_comm])

theorem self (h : IsPartialJoin r join) (a : α) : join a a = some a :=
  h.eq_some_iff.mpr ⟨by simp [h.refl a], fun d hd => hd a List.mem_cons_self⟩

theorem assoc (h : IsPartialJoin r join) (a b c : α) :
    ((join a b).bind fun ab => join ab c) = (join b c).bind fun bc => join a bc := by
  have hright : ((join b c).bind fun bc => join a bc) = (join b c).bind fun bc => join bc a := by
    simp only [h.comm a]
  ext d
  rw [hright, h.bind_eq_some_iff, h.bind_eq_some_iff]
  exact leastAbove_congr fun x => by simp only [List.mem_cons]; tauto

end IsPartialJoin

end PartialJoin
