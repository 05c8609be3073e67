import Mathlib
import Knok.Arrays.Promotion

/-!
# Reading at indices

Arrays read at positions of which one coordinate is the value of an index array.
Negative indices count from the end.  The transpose of such a read adds up, at a
position of the operand, all entries that read it (`push_indexedPosition`).

### Design decisions

* **Three runs of axes.**  The result has the axes before the indexed one, the
  axes of the index array and the axes after; reading along one axis is the case
  of a single axis in the middle.
-/

namespace Arrays

/-! ## Indices -/

/-- An index, counted from the end when negative. -/
def normalized (dim : ℕ) (index : ℤ) : ℤ := if index < 0 then index + dim else index

/-- The index is within the dimension, from either end. -/
def InRange (dim : ℕ) (index : ℤ) : Prop := -(dim : ℤ) ≤ index ∧ index < dim

instance (dim : ℕ) (index : ℤ) : Decidable (InRange dim index) :=
  inferInstanceAs (Decidable (_ ∧ _))

/-- The position that is read: `count` coordinates from the axis on are replaced by
one index. -/
def indexedPosition (axis count dim : ℕ) (index : List ℕ → ℤ) (i : List ℕ) : List ℕ :=
  i.take axis ++ (normalized dim (index i)).toNat :: i.drop (axis + count)

/-- The position read by `gather`: the coordinates of the index array are replaced
by the index found there. -/
def gatherPosition (axis rank dim : ℕ) (indices : List ℕ → ℤ) : List ℕ → List ℕ :=
  indexedPosition axis rank dim fun i => indices ((i.drop axis).take rank)

/-- The position read by `take_along_axis`: the coordinate along the axis is
replaced by the index found there. -/
def alongPosition (axis dim : ℕ) (indices : List ℕ → ℤ) : List ℕ → List ℕ :=
  indexedPosition axis 1 dim indices

section Normalized

variable {dim k : ℕ} {index : ℤ}

theorem InRange.lt (h : InRange dim index) : (normalized dim index).toNat < dim := by
  obtain ⟨hlow, hhigh⟩ := h
  unfold normalized
  split_ifs <;> omega

theorem inRange_iff : InRange dim index ↔ 0 ≤ normalized dim index ∧ normalized dim index < dim := by
  unfold InRange normalized
  split_ifs <;> omega

/-- The two integers that stand for a coordinate. -/
theorem InRange.eq_iff (h : InRange dim index) (hk : k < dim) :
    (normalized dim index).toNat = k ↔ index = k ∨ index = (k : ℤ) - dim := by
  obtain ⟨hlow, hhigh⟩ := h
  unfold normalized
  split_ifs <;> omega

end Normalized

/-! ## Positions in three runs of axes -/

theorem exists_append_of_inBounds {i s t : List ℕ} (hi : InBounds i (s ++ t)) :
    ∃ p q, i = p ++ q ∧ InBounds p s ∧ InBounds q t :=
  ⟨i.take s.length, i.drop s.length, (List.take_append_drop _ _).symm,
    List.forall₂_take_append i s t hi, List.forall₂_drop_append i s t hi⟩

section Runs

variable {pre mid suf p t s : List ℕ} {dim : ℕ} {index : List ℕ → ℤ}

theorem exists_runs {i : List ℕ} (hi : InBounds i (pre ++ (mid ++ suf))) :
    ∃ p t s, i = p ++ (t ++ s) ∧ InBounds p pre ∧ InBounds t mid ∧ InBounds s suf := by
  obtain ⟨p, q, rfl, hp, hq⟩ := exists_append_of_inBounds hi
  obtain ⟨t, s, rfl, ht, hs⟩ := exists_append_of_inBounds hq
  exact ⟨p, t, s, rfl, hp, ht, hs⟩

theorem inBounds_runs (hp : InBounds p pre) (ht : InBounds t mid) (hs : InBounds s suf) :
    InBounds (p ++ (t ++ s)) (pre ++ (mid ++ suf)) :=
  inBounds_append hp (inBounds_append ht hs)

theorem indexedPosition_runs (hp : InBounds p pre) (ht : InBounds t mid) :
    indexedPosition pre.length mid.length dim index (p ++ (t ++ s)) =
      p ++ (normalized dim (index (p ++ (t ++ s)))).toNat :: s := by
  unfold indexedPosition
  have hdrop : (p ++ (t ++ s)).drop (pre.length + mid.length) = s := by
    rw [← List.append_assoc, ← hp.length_eq, ← ht.length_eq, ← List.length_append,
      List.drop_left]
  rw [hdrop, ← hp.length_eq, List.take_left]

/-- Indices within the dimension read positions of the operand. -/
theorem inBounds_indexedPosition
    (hrange : ∀ i, InBounds i (pre ++ (mid ++ suf)) → InRange dim (index i)) {i : List ℕ}
    (hi : InBounds i (pre ++ (mid ++ suf))) :
    InBounds (indexedPosition pre.length mid.length dim index i) (pre ++ dim :: suf) := by
  obtain ⟨p, t, s, rfl, hp, ht, hs⟩ := exists_runs hi
  rw [indexedPosition_runs hp ht]
  exact inBounds_append hp (.cons (hrange _ hi).lt hs)

/-- **The transpose of an indexed read** adds up the entries that read a position. -/
theorem push_indexedPosition {R : Type*} [AddCommMonoid R] (g : List ℕ → R) {k : ℕ}
    (hp : InBounds p pre) (hs : InBounds s suf) :
    push (pre ++ (mid ++ suf)) (fun i => some (indexedPosition pre.length mid.length dim index i)) g
        (p ++ k :: s) =
      ∑ t ∈ box mid, if (normalized dim (index (p ++ (t ++ s)))).toNat = k
        then g (p ++ (t ++ s)) else 0 := by
  have hreads : ∀ p' t' s', InBounds p' pre → InBounds t' mid →
      (some (indexedPosition pre.length mid.length dim index (p' ++ (t' ++ s'))) =
          some (p ++ k :: s) ↔
        p' = p ∧ (normalized dim (index (p' ++ (t' ++ s')))).toNat = k ∧ s' = s) := by
    intro p' t' s' hp' ht'
    rw [indexedPosition_runs hp' ht', Option.some.injEq]
    constructor
    · intro heq
      obtain ⟨rfl, htail⟩ := List.append_inj heq (hp'.length_eq.trans hp.length_eq.symm)
      exact ⟨rfl, List.cons.inj htail⟩
    · rintro ⟨rfl, hk, rfl⟩
      rw [hk]
  unfold push
  rw [sum_box_append, Finset.sum_eq_single p, sum_box_append]
  · refine Finset.sum_congr rfl fun t ht => ?_
    have ht := mem_box.mp ht
    rw [Finset.sum_eq_single s]
    · refine if_congr ((hreads p t s hp ht).trans ?_) rfl rfl
      exact ⟨fun h => h.2.1, fun h => ⟨rfl, h, rfl⟩⟩
    · exact fun s' _ hne => if_neg fun heq => hne ((hreads p t s' hp ht).mp heq).2.2
    · exact fun hnot => absurd (mem_box.mpr hs) hnot
  · intro p' hp' hne
    rw [sum_box_append]
    refine Finset.sum_eq_zero fun t ht => Finset.sum_eq_zero fun s' _ => if_neg fun heq => ?_
    exact hne ((hreads p' t s' (mem_box.mp hp') (mem_box.mp ht)).mp heq).1
  · exact fun hnot => absurd (mem_box.mpr hp) hnot

end Runs

/-! ## Unit axes around an array -/

section UnitAxes

variable {t i : List ℕ}

theorem ravel_replicate_one_append (n : ℕ) :
    ravel (List.replicate n 1 ++ t) (List.replicate n 0 ++ i) = ravel t i := by
  induction n with
  | zero => rfl
  | succ n ih =>
      rw [List.replicate_succ, List.replicate_succ, List.cons_append, List.cons_append, ravel,
        zero_mul, zero_add, ih]

theorem ravel_append_replicate_one (n : ℕ) (hlen : i.length = t.length) :
    ravel (t ++ List.replicate n 1) (i ++ List.replicate n 0) = ravel t i := by
  induction n with
  | zero => simp
  | succ n ih =>
      rw [List.replicate_succ, List.replicate_succ, ravel_append_one hlen, ih]

/-- Reading an array through unit axes before and after. -/
theorem unravel_ravel_unitAxes (m n : ℕ) (hi : InBounds i t) :
    unravel t (ravel (List.replicate m 1 ++ (t ++ List.replicate n 1))
      (List.replicate m 0 ++ (i ++ List.replicate n 0))) = i := by
  rw [ravel_replicate_one_append, ravel_append_replicate_one n hi.length_eq, unravel_ravel hi]

end UnitAxes

section Repeats

variable {pre mid suf p t s : List ℕ} {dim k : ℕ}

theorem forall₂_self (s : List ℕ) : List.Forall₂ (fun d e => d = e ∨ d = 1) s s :=
  List.forall₂_same.mpr fun _ _ => .inl rfl

theorem forall₂_replicate_one (s : List ℕ) :
    List.Forall₂ (fun d e => d = e ∨ d = 1) (List.replicate s.length 1) s := by
  induction s with
  | nil => exact .nil
  | cons dim s ih => exact .cons (.inr rfl) ih

theorem broadcastsTo_unitAxes (pre mid suf : List ℕ) :
    BroadcastsTo (List.replicate pre.length 1 ++ (mid ++ List.replicate suf.length 1))
      (pre ++ (mid ++ suf)) :=
  broadcastsTo_of_forall₂ (List.rel_append (forall₂_replicate_one pre)
    (List.rel_append (forall₂_self mid) (forall₂_replicate_one suf)))

theorem broadcastsTo_unitAxis (pre suf : List ℕ) (dim : ℕ) :
    BroadcastsTo (pre ++ 1 :: suf) (pre ++ dim :: suf) :=
  broadcastsTo_of_forall₂
    (List.rel_append (forall₂_self pre) (.cons (.inr rfl) (forall₂_self suf)))

/-- The coordinates that an array of the same rank is read at. -/
theorem zipWith_self (hp : InBounds p pre) :
    List.zipWith (fun d k => if d = 1 then 0 else k) pre p = p := by
  have hself := broadcastIndex_self hp
  rwa [broadcastIndex_of_length_eq hp.length_eq.symm] at hself

theorem zipWith_replicate_one (i : List ℕ) :
    List.zipWith (fun d k => if d = 1 then 0 else k) (List.replicate i.length 1) i =
      List.replicate i.length 0 := by
  induction i with
  | nil => rfl
  | cons k i ih =>
      rw [List.length_cons, List.replicate_succ, List.zipWith_cons_cons, ih, if_pos rfl,
        List.replicate_succ]

theorem broadcastIndex_unitAxes (hp : InBounds p pre) (ht : InBounds t mid)
    (hs : InBounds s suf) :
    broadcastIndex (List.replicate pre.length 1 ++ (mid ++ List.replicate suf.length 1))
        (p ++ (t ++ s)) =
      List.replicate pre.length 0 ++ (t ++ List.replicate suf.length 0) := by
  rw [broadcastIndex_of_length_eq (by simp [hp.length_eq, ht.length_eq, hs.length_eq]),
    List.zipWith_append (by simp [hp.length_eq]), List.zipWith_append ht.length_eq.symm,
    zipWith_self ht, ← hp.length_eq, ← hs.length_eq, zipWith_replicate_one, zipWith_replicate_one]

theorem broadcastIndex_unitAxis (hp : InBounds p pre) (hs : InBounds s suf) :
    broadcastIndex (pre ++ 1 :: suf) (p ++ k :: s) = p ++ 0 :: s := by
  rw [broadcastIndex_of_length_eq (by simp [hp.length_eq, hs.length_eq]),
    List.zipWith_append hp.length_eq.symm, List.zipWith_cons_cons, zipWith_self hp,
    zipWith_self hs, if_pos rfl]

end Repeats

end Arrays
