import Mathlib
import Knok.Arrays.Index

/-!
# Reading and collecting along index maps

An index map sends a position of one array to a position of another, or to
nothing.  `pull` reads an array along an index map (zero where the map says
nothing); `push` sends every entry to where the map says and adds up what
arrives.  The two are adjoint (`inner_pull`), and composing index maps
composes pushes (`push_push`).  Every operation that only moves data is a pull,
and its gradient has to be the push along the same map.
-/

namespace Arrays

/-- An index map: where an entry comes from, if anywhere. -/
abbrev IndexMap := List ℕ → Option (List ℕ)

/-- Reads an array along an index map. -/
def pull {R : Type*} [Zero R] (σ : IndexMap) (x : List ℕ → R) (i : List ℕ) : R := (σ i).elim 0 x

/-- Sends the entries of an array of shape `s` along an index map. -/
def push {R : Type*} [AddCommMonoid R] (s : List ℕ) (σ : IndexMap) (g : List ℕ → R)
    (j : List ℕ) : R :=
  ∑ i ∈ box s, if σ i = some j then g i else 0

theorem pull_some {R : Type*} [Zero R] {σ : IndexMap} {x : List ℕ → R} {i j : List ℕ}
    (h : σ i = some j) : pull σ x i = x j := by
  rw [pull, h]
  rfl

theorem pull_none {R : Type*} [Zero R] {σ : IndexMap} {x : List ℕ → R} {i : List ℕ}
    (h : σ i = none) : pull σ x i = 0 := by
  rw [pull, h]
  rfl

/-- The map sends positions of the shape `s` to positions of the shape `t`. -/
def MapsBox (s t : List ℕ) (σ : IndexMap) : Prop :=
  ∀ i, InBounds i s → ∀ j, σ i = some j → InBounds j t

theorem MapsBox.comp {s t u : List ℕ} {σ τ : IndexMap} (hσ : MapsBox s t σ)
    (hτ : MapsBox t u τ) : MapsBox s u fun i => (σ i).bind τ := by
  intro i hi k hk
  obtain ⟨j, hj, hk⟩ := Option.bind_eq_some_iff.mp hk
  exact hτ j (hσ i hi j hj) k hk

section Pushes

variable {R : Type*} [AddCommMonoid R] {s t u : List ℕ} {σ τ : IndexMap}

theorem push_congr {g g' : List ℕ → R} (hg : ∀ i, InBounds i s → g i = g' i)
    (hσ : ∀ i, InBounds i s → σ i = τ i) (j : List ℕ) : push s σ g j = push s τ g' j := by
  refine Finset.sum_congr rfl fun i hi => ?_
  rw [hσ i (mem_box.mp hi), hg i (mem_box.mp hi)]

/-- Sending along two maps in turn. -/
theorem push_push (hσ : MapsBox s t σ) (g : List ℕ → R) (k : List ℕ) :
    push t τ (push s σ g) k = push s (fun i => (σ i).bind τ) g k := by
  unfold push
  calc ∑ j ∈ box t, (if τ j = some k then ∑ i ∈ box s, if σ i = some j then g i else 0 else 0)
      = ∑ j ∈ box t, ∑ i ∈ box s, if τ j = some k ∧ σ i = some j then g i else 0 := by
        refine Finset.sum_congr rfl fun j _ => ?_
        by_cases hj : τ j = some k <;> simp [hj]
    _ = ∑ i ∈ box s, ∑ j ∈ box t, if τ j = some k ∧ σ i = some j then g i else 0 :=
        Finset.sum_comm
    _ = ∑ i ∈ box s, if (σ i).bind τ = some k then g i else 0 := by
        refine Finset.sum_congr rfl fun i hi => ?_
        cases hσi : σ i with
        | none => simp
        | some j =>
            have hj : j ∈ box t := mem_box.mpr (hσ i (mem_box.mp hi) j hσi)
            rw [Finset.sum_eq_single j (fun j' _ hne => by simp [hne.symm])
              fun hnot => absurd hj hnot]
            simp

/-- Along a map with an inverse, sending is reading along the inverse. -/
theorem push_eq_pull (hinv : ∀ i j, InBounds i s → InBounds j t →
      (σ i = some j ↔ τ j = some i)) (hτ : MapsBox t s τ) (g : List ℕ → R)
    {j : List ℕ} (hj : InBounds j t) : push s σ g j = pull τ g j := by
  unfold push
  cases hτj : τ j with
  | none =>
      rw [pull_none hτj]
      refine Finset.sum_eq_zero fun i hi => if_neg fun hσi => ?_
      rw [(hinv i j (mem_box.mp hi) hj).mp hσi] at hτj
      cases hτj
  | some i =>
      have hi := hτ j hj i hτj
      rw [pull_some hτj, Finset.sum_eq_single i]
      · exact if_pos ((hinv i j hi hj).mpr hτj)
      · intro i' hi' hne
        refine if_neg fun hσi => hne ?_
        rw [(hinv i' j (mem_box.mp hi') hj).mp hσi] at hτj
        exact Option.some.inj hτj
      · exact fun hnot => absurd (mem_box.mpr hi) hnot

/-- Sending every entry to its own position. -/
theorem push_id (g : List ℕ → R) {j : List ℕ} (hj : InBounds j s) :
    push s (fun i => some i) g j = g j := by
  have hmaps : MapsBox s s fun i => some i := by
    intro i hi k hk
    cases hk
    exact hi
  refine (push_eq_pull (fun i j _ _ => ?_) hmaps g hj).trans rfl
  rw [Option.some.injEq, Option.some.injEq]
  exact eq_comm

/-- What arrives at a position, summed over a listing of the positions that are
sent there. -/
theorem push_eq_sum {ι : Type*} {items : Finset ι} {f : ι → List ℕ} {j : List ℕ}
    (hmem : ∀ k ∈ items, InBounds (f k) s ∧ σ (f k) = some j)
    (hinj : ∀ k ∈ items, ∀ k' ∈ items, f k = f k' → k = k')
    (hall : ∀ i, InBounds i s → σ i = some j → ∃ k ∈ items, f k = i) (g : List ℕ → R) :
    push s σ g j = ∑ k ∈ items, g (f k) := by
  unfold push
  rw [← Finset.sum_filter]
  symm
  refine Finset.sum_bij (fun k _ => f k) ?_ hinj ?_ fun _ _ => rfl
  · intro k hk
    obtain ⟨hbound, hsent⟩ := hmem k hk
    exact Finset.mem_filter.mpr ⟨mem_box.mpr hbound, hsent⟩
  · intro i hi
    obtain ⟨hbox, hsent⟩ := Finset.mem_filter.mp hi
    obtain ⟨k, hk, rfl⟩ := hall i (mem_box.mp hbox) hsent
    exact ⟨k, hk, rfl⟩

end Pushes

/-! ## Adjointness -/

section Adjoint

variable {R : Type*} [CommSemiring R] {s t : List ℕ} {σ : IndexMap}

/-- The inner product of two arrays of shape `s`. -/
def inner (s : List ℕ) (x y : List ℕ → R) : R := ∑ i ∈ box s, x i * y i

theorem inner_congr {x x' y y' : List ℕ → R} (hx : ∀ i, InBounds i s → x i = x' i)
    (hy : ∀ i, InBounds i s → y i = y' i) : inner s x y = inner s x' y' := by
  refine Finset.sum_congr rfl fun i hi => ?_
  rw [hx i (mem_box.mp hi), hy i (mem_box.mp hi)]

theorem inner_add_right (x y z : List ℕ → R) :
    inner s x (fun i => y i + z i) = inner s x y + inner s x z := by
  simp only [inner, mul_add, Finset.sum_add_distrib]

theorem inner_add_left (x y z : List ℕ → R) :
    inner s (fun i => x i + y i) z = inner s x z + inner s y z := by
  simp only [inner, add_mul, Finset.sum_add_distrib]

theorem inner_zero_right (x : List ℕ → R) : inner s x (fun _ => 0) = 0 := by
  simp [inner]

/-- The inner product with a sum of arrays. -/
theorem inner_list_sum {α : Type*} (items : List α) (x : α → List ℕ → R) (z : List ℕ → R) :
    inner s (fun i => (items.map fun item => x item i).sum) z =
      (items.map fun item => inner s (x item) z).sum := by
  induction items with
  | nil => simp [inner]
  | cons item items ih => simp only [List.map_cons, List.sum_cons, inner_add_left, ih]

/-- The array that is one at a position and zero elsewhere. -/
def unitArray (j i : List ℕ) : R := if i = j then 1 else 0

theorem inner_unitArray {j : List ℕ} (hj : InBounds j s) (x : List ℕ → R) :
    inner s (unitArray j) x = x j := by
  unfold inner unitArray
  simp only [ite_mul, one_mul, zero_mul]
  rw [Finset.sum_ite_eq', if_pos (mem_box.mpr hj)]

/-- **Reading and sending are adjoint.** -/
theorem inner_pull (hσ : MapsBox s t σ) (x g : List ℕ → R) :
    inner s (pull σ x) g = inner t x (push s σ g) := by
  unfold inner push
  calc ∑ i ∈ box s, pull σ x i * g i
      = ∑ i ∈ box s, ∑ j ∈ box t, if σ i = some j then x j * g i else 0 := by
        refine Finset.sum_congr rfl fun i hi => ?_
        cases hσi : σ i with
        | none => simp [pull_none hσi]
        | some j =>
            have hj : j ∈ box t := mem_box.mpr (hσ i (mem_box.mp hi) j hσi)
            rw [pull_some hσi, Finset.sum_eq_single j (fun j' _ hne => by simp [hne.symm])
              fun hnot => absurd hj hnot]
            simp
    _ = ∑ j ∈ box t, ∑ i ∈ box s, if σ i = some j then x j * g i else 0 := Finset.sum_comm
    _ = ∑ j ∈ box t, x j * ∑ i ∈ box s, if σ i = some j then g i else 0 := by
        refine Finset.sum_congr rfl fun j _ => ?_
        rw [Finset.mul_sum]
        refine Finset.sum_congr rfl fun i _ => ?_
        rw [mul_ite, mul_zero]

end Adjoint

end Arrays
