import Mathlib

/-!
# The first greatest entry

A scan that keeps the better of two entries, the lower place among equal ones,
returns the greatest pair of a lexicographic order, whatever the order of its
visits.  It starts from a seed at place zero, so that it returns the first greatest
entry only where the seed does not come in between.

### Main definitions

* `IsFirstGreatest` is the specification: the least place of a greatest value.
* `place` is the order of the scan.
* `SeedKeeps` says at which entries the seed does no harm.
-/

namespace Arrays

variable {ι α : Type*} [LinearOrder α]

/-- Folding a choice of the higher of two values ends with a highest one. -/
theorem foldl_pick {β : Type*} {pick : β → β → β} (rank : β → α)
    (hpick : ∀ x y, pick x y = x ∨ pick x y = y)
    (hrank : ∀ x y, rank x ≤ rank (pick x y) ∧ rank y ≤ rank (pick x y)) (xs : List β) (start : β) :
    (xs.foldl pick start = start ∨ xs.foldl pick start ∈ xs) ∧
      rank start ≤ rank (xs.foldl pick start) ∧
      ∀ x ∈ xs, rank x ≤ rank (xs.foldl pick start) := by
  induction xs generalizing start with
  | nil => exact ⟨.inl rfl, le_rfl, fun x hx => by cases hx⟩
  | cons x xs ih =>
      obtain ⟨hmem, hstart, hrest⟩ := ih (pick start x)
      obtain ⟨hleft, hright⟩ := hrank start x
      rw [List.foldl_cons]
      refine ⟨?_, hleft.trans hstart, List.forall_mem_cons.mpr ⟨hright.trans hstart, hrest⟩⟩
      rcases hmem with hpicked | hlater
      · rcases hpick start x with heq | heq
        · exact .inl (hpicked.trans heq)
        · exact .inr (List.mem_cons.mpr (.inl (hpicked.trans heq)))
      · exact .inr (List.mem_cons_of_mem x hlater)

/-- Folding a maximum computes the greatest of the start and the list. -/
theorem isGreatest_foldl_max (xs : List α) (start : α) :
    IsGreatest {b | b = start ∨ b ∈ xs} (xs.foldl max start) := by
  obtain ⟨hmem, hstart, hrest⟩ := foldl_pick id max_choice
    (fun x y => ⟨le_max_left x y, le_max_right x y⟩) xs start
  refine ⟨hmem, ?_⟩
  rintro b (rfl | hb)
  · exact hstart
  · exact hrest b hb

variable (group : Finset ι) (value : ι → α) (number : ι → ℕ)

/-- An entry whose value is greatest. -/
def IsGreatestEntry (d : ι) : Prop := d ∈ group ∧ ∀ e ∈ group, value e ≤ value d

/-- The least number of a greatest entry. -/
def IsFirstGreatest (m : ℕ) : Prop :=
  IsLeast {k | ∃ d, IsGreatestEntry group value d ∧ number d = k} m

variable {group value number}

theorem exists_isFirstGreatest (hgroup : group.Nonempty) :
    ∃ m, IsFirstGreatest group value number m := by
  classical
  obtain ⟨d, hd, hgreatest⟩ := group.exists_max_image value hgroup
  have hexists : ∃ k, ∃ d, IsGreatestEntry group value d ∧ number d = k :=
    ⟨number d, d, ⟨hd, hgreatest⟩, rfl⟩
  exact ⟨Nat.find hexists, Nat.find_spec hexists, fun k hk => Nat.find_min' hexists hk⟩

/-- Greatest entries have one value. -/
theorem IsGreatestEntry.value_eq {d e : ι} (hd : IsGreatestEntry group value d)
    (he : IsGreatestEntry group value e) : value d = value e :=
  le_antisymm (he.2 d hd.1) (hd.2 e he.1)

/-- The order of a scan: greater values first, then lower places. -/
def place (v : α) (k : ℤ) : α ×ₗ ℤᵒᵈ := toLex (v, OrderDual.toDual k)

theorem place_le_place {v w : α} {k l : ℤ} :
    place v k ≤ place w l ↔ v < w ∨ v = w ∧ l ≤ k :=
  Prod.Lex.toLex_le_toLex

omit [LinearOrder α] in
theorem place_inj {v w : α} {k l : ℤ} : place v k = place w l ↔ v = w ∧ k = l :=
  toLex_inj.trans (Prod.mk_inj.trans Iff.rfl)

/-- The better of two places. -/
theorem max_place {v w : α} {k l : ℤ} : max (place v k) (place w l) =
    if v < w ∨ v = w ∧ l < k then place w l else place v k := by
  split_ifs with h
  · apply max_eq_right
    rw [place_le_place]
    exact h.imp_right fun ⟨hvalue, hlt⟩ => ⟨hvalue, hlt.le⟩
  · apply max_eq_left
    rw [place_le_place]
    rw [not_or, not_lt, not_and, not_lt] at h
    obtain ⟨hle, htie⟩ := h
    rcases hle.lt_or_eq with hlt | heq
    · exact .inl hlt
    · exact .inr ⟨heq, htie heq.symm⟩

/-- The seed does no harm at a greatest entry: where it is not beaten, the entry at
place zero is greatest too, and no entry that could win has a place before the
first. -/
structure SeedKeeps (group : Finset ι) (value : ι → α) (number : ι → ℕ) (image : ι → ℤ) (seed : α)
    (d : ι) : Prop where
  first : value d ≤ seed → ∃ e, IsGreatestEntry group value e ∧ number e = 0
  images : seed ≤ value d → ∃ e, IsGreatestEntry group value e ∧ (number e : ℤ) ≤ image d

/-- **A seeded scan returns the first greatest entry exactly where the seed does no
harm.** -/
theorem scan_eq_first_iff {ds : List ι} {image : ι → ℤ} {seed v : α} {k : ℤ} {m : ℕ}
    (hvisits : ∀ d, d ∈ ds ↔ d ∈ group) (himage : ∀ d, image d ≤ number d)
    (hscan : place v k = (ds.map fun d => place (value d) (image d)).foldl max (place seed 0))
    (hm : IsFirstGreatest group value number m) :
    k = m ↔ ∀ d, IsGreatestEntry group value d → SeedKeeps group value number image seed d := by
  obtain ⟨hmem, hupper⟩ :=
    isGreatest_foldl_max (ds.map fun d => place (value d) (image d)) (place seed 0)
  rw [← hscan] at hmem hupper
  have hseed : seed < v ∨ seed = v ∧ k ≤ 0 := place_le_place.mp (hupper (.inl rfl))
  have hentry : ∀ d ∈ group, value d < v ∨ value d = v ∧ k ≤ image d := fun d hd =>
    place_le_place.mp (hupper (.inr (List.mem_map_of_mem ((hvisits d).mpr hd))))
  -- the scan has kept the seed or an entry
  have horigin : v = seed ∧ k = 0 ∨ ∃ d ∈ group, v = value d ∧ k = image d := by
    rcases hmem with hstart | hvisited
    · exact .inl (place_inj.mp hstart)
    · obtain ⟨d, hd, hplace⟩ := List.mem_map.mp hvisited
      obtain ⟨hvalue, hindex⟩ := place_inj.mp hplace
      exact .inr ⟨d, (hvisits d).mp hd, hvalue.symm, hindex.symm⟩
  obtain ⟨⟨d₀, hd₀, hnumber⟩, hleast⟩ := hm
  have hfirst : ∀ e, IsGreatestEntry group value e → m ≤ number e := fun e he =>
    hleast ⟨e, he, rfl⟩
  constructor
  · rintro rfl d hd
    constructor
    · intro hle
      have hnot : ¬ seed < v := by
        rcases horigin with ⟨rfl, -⟩ | ⟨e, he, rfl, -⟩
        · exact lt_irrefl v
        · exact not_lt.mpr ((hd.2 e he).trans hle)
      have hzero : (m : ℤ) ≤ 0 := (hseed.resolve_left hnot).2
      exact ⟨d₀, hd₀, hnumber.trans (Nat.le_zero.mp (Int.ofNat_le.mp hzero))⟩
    · intro hle
      have hnot : ¬ value d < v := by
        rcases horigin with ⟨rfl, -⟩ | ⟨e, he, rfl, -⟩
        · exact not_lt.mpr hle
        · exact not_lt.mpr (hd.2 e he)
      refine ⟨d₀, hd₀, ?_⟩
      rw [hnumber]
      exact ((hentry d hd.1).resolve_left hnot).2
  · intro hkeeps
    -- an entry that the scan has kept is greatest, and not placed before the first
    have hwon : ∀ d ∈ group, v = value d → k = image d → IsGreatestEntry group value d ∧
        (m : ℤ) ≤ k := by
      rintro d hd rfl rfl
      have hgreatest : IsGreatestEntry group value d :=
        ⟨hd, fun e he => (hentry e he).elim le_of_lt fun h => h.1.le⟩
      have hle : seed ≤ value d := hseed.elim le_of_lt fun h => h.1.le
      obtain ⟨e, he, himages⟩ := (hkeeps d hgreatest).images hle
      exact ⟨hgreatest, (Int.ofNat_le.mpr (hfirst e he)).trans himages⟩
    rcases le_or_gt (value d₀) seed with hle | hlt
    · obtain ⟨e, he, hzero⟩ := (hkeeps d₀ hd₀).first hle
      obtain rfl : m = 0 := Nat.le_zero.mp (hzero ▸ hfirst e he)
      rcases horigin with ⟨-, hk⟩ | ⟨d, hd, hv, hk⟩
      · exact hk
      · obtain ⟨hgreatest, hpos⟩ := hwon d hd hv hk
        have hnot : ¬ seed < v := by
          rw [hv]
          exact not_lt.mpr ((hd₀.2 d hd).trans hle)
        exact le_antisymm (hseed.resolve_left hnot).2 hpos
    · have hbeaten : v ≠ seed := by
        rintro rfl
        rcases hentry d₀ hd₀.1 with h | ⟨h, -⟩
        · exact absurd (hlt.trans h) (lt_irrefl _)
        · exact absurd h hlt.ne'
      obtain ⟨d, hd, hv, hk⟩ := horigin.resolve_left fun h => hbeaten h.1
      obtain ⟨hgreatest, hpos⟩ := hwon d hd hv hk
      have hsame : value d₀ = v := hv ▸ hd₀.value_eq hgreatest
      rcases hentry d₀ hd₀.1 with h | ⟨-, h⟩
      · exact absurd hsame h.ne
      · exact le_antisymm (h.trans (hnumber ▸ himage d₀)) hpos

end Arrays
