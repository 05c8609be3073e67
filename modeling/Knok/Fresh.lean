import Mathlib

/-!
# Fresh elements

A generator of pairwise distinct candidates always leaves a finite set of
reserved elements: one of the first `n + 1` candidates is not among `n` reserved
ones.  `freshIndex` is the search that takes candidates one by one and stops at
the first that is not reserved; bounding it by that count loses nothing.
-/

namespace Fresh

variable {α : Type*} [DecidableEq α]

/-- The number of the first candidate, from `start` on, that is not reserved;
the search gives up after `bound` rejected candidates. -/
def freshIndex (candidate : ℕ → α) (reserved : List α) : ℕ → ℕ → ℕ
  | 0, start => start
  | bound + 1, start =>
      if candidate start ∈ reserved then freshIndex candidate reserved bound (start + 1)
      else start

/-- The candidate found is fresh if some candidate within the bound is. -/
theorem freshIndex_not_mem_of_exists {candidate : ℕ → α} {reserved : List α} :
    ∀ {bound start : ℕ},
      (∃ k ≤ bound, candidate (start + k) ∉ reserved) →
        candidate (freshIndex candidate reserved bound start) ∉ reserved := by
  intro bound
  induction bound with
  | zero =>
      rintro start ⟨k, hk, hfresh⟩
      obtain rfl : k = 0 := by omega
      simpa [freshIndex] using hfresh
  | succ bound ih =>
      rintro start ⟨k, hk, hfresh⟩
      by_cases hstart : candidate start ∈ reserved
      · rw [freshIndex, if_pos hstart]
        have hne : k ≠ 0 := by
          rintro rfl
          exact hfresh (by simpa using hstart)
        refine ih ⟨k - 1, by omega, ?_⟩
        rwa [show start + 1 + (k - 1) = start + k by omega]
      · rwa [freshIndex, if_neg hstart]

/-- Among one candidate more than there are reserved elements, one is fresh. -/
theorem exists_candidate_not_mem {candidate : ℕ → α}
    (hinj : Function.Injective candidate) (reserved : List α) (start : ℕ) :
    ∃ k ≤ reserved.length, candidate (start + k) ∉ reserved := by
  by_contra hall
  push Not at hall
  have hmaps : ∀ k ∈ Finset.range (reserved.length + 1),
      candidate (start + k) ∈ reserved.toFinset := by
    intro k hk
    rw [List.mem_toFinset]
    exact hall k (by have := Finset.mem_range.mp hk; omega)
  have hle := Finset.card_le_card_of_injOn (fun k => candidate (start + k)) hmaps
    (fun k _ l _ h => by have := hinj h; omega)
  have hcard := reserved.toFinset_card_le
  rw [Finset.card_range] at hle
  omega

/-- **A bounded search finds a fresh element.** -/
theorem freshIndex_not_mem {candidate : ℕ → α} (hinj : Function.Injective candidate)
    (reserved : List α) (start : ℕ) :
    candidate (freshIndex candidate reserved reserved.length start) ∉ reserved :=
  freshIndex_not_mem_of_exists (exists_candidate_not_mem hinj reserved start)

/-! ## Names with a suffix -/

/-- The candidates for a name: the base, then the base with a suffix. -/
def nameCandidate (base : String) : ℕ → String
  | 0 => base
  | suffix => base ++ ("_" ++ toString suffix)

theorem nameCandidate_injective (base : String) :
    Function.Injective (nameCandidate base) := by
  have hsuffix : ∀ k, nameCandidate base (k + 1) = base ++ ("_" ++ toString (k + 1)) :=
    fun _ => rfl
  have hbase : ∀ k, nameCandidate base 0 ≠ nameCandidate base (k + 1) := by
    intro k h
    have hlen := congrArg String.length h
    rw [hsuffix] at hlen
    simp [nameCandidate] at hlen
  intro i j h
  match i, j with
  | 0, 0 => rfl
  | 0, j + 1 => exact absurd h (hbase j)
  | i + 1, 0 => exact absurd h.symm (hbase i)
  | i + 1, j + 1 =>
      rw [hsuffix, hsuffix, String.append_right_inj, String.append_right_inj] at h
      exact Nat.repr_injective h

end Fresh
