import Mathlib
import Knok.Arrays.Indexing
import Knok.Arrays.Promotion
import Knok.Arrays.Reduction

/-!
# Products of arrays

The contractions of arrays of any rank beside the matrix product: dot products
along an axis, inner products along the last axes, outer products of flattened
arrays, and the diagonal of two axes with its sum, the trace.  Each is linear in
every operand, and its adjoint in an operand is stated here entry by entry.

### Design decisions

* **Two axes at once.**  `erasePair` takes two coordinates out of a position and
  `insertPair` puts them in; the axes may come in either order.
* **Traces are sums of diagonals.**  The adjoint of the trace is the adjoint of
  the diagonal, at a gradient that is repeated along the diagonal.
-/

namespace Arrays

/-! ## Two axes of a position -/

/-- The list without two axes. -/
def erasePair (a b : ℕ) (s : List ℕ) : List ℕ :=
  if a < b then (s.eraseIdx b).eraseIdx a else (s.eraseIdx a).eraseIdx b

/-- The list with two more axes, which have these coordinates. -/
def insertPair (a b : ℕ) (i : List ℕ) (k l : ℕ) : List ℕ :=
  if a < b then (i.insertIdx a k).insertIdx b l else (i.insertIdx b l).insertIdx a k

/-- Two axes of a rank. -/
def PairFits (a b rank : ℕ) : Prop := a < rank ∧ b < rank ∧ a ≠ b

section Pairs

variable {a b k l : ℕ} {i j s : List ℕ}

theorem length_erasePair (h : PairFits a b s.length) :
    (erasePair a b s).length = s.length - 2 := by
  obtain ⟨ha, hb, hne⟩ := h
  rw [erasePair]
  split_ifs <;> simp only [List.length_eraseIdx] <;> split_ifs <;> omega

/-- Putting two coordinates in and taking them out. -/
theorem erasePair_insertPair (a b : ℕ) (i : List ℕ) (k l : ℕ) :
    erasePair a b (insertPair a b i k l) = i := by
  unfold erasePair insertPair
  split_ifs
  · rw [List.eraseIdx_insertIdx_self, List.eraseIdx_insertIdx_self]
  · rw [List.eraseIdx_insertIdx_self, List.eraseIdx_insertIdx_self]

/-- Taking two coordinates out and putting them back. -/
theorem insertPair_erasePair (h : PairFits a b j.length) :
    insertPair a b (erasePair a b j) (j.getD a 0) (j.getD b 0) = j := by
  obtain ⟨ha, hb, hne⟩ := h
  unfold erasePair insertPair
  split_ifs with hlt
  · have hget : (j.eraseIdx b).getD a 0 = j.getD a 0 := by rw [getD_eraseIdx, if_pos hlt]
    rw [← hget, insertIdx_eraseIdx_of_getD (by rw [List.length_eraseIdx, if_pos hb]; omega),
      insertIdx_eraseIdx_of_getD hb]
  · have hget : (j.eraseIdx a).getD b 0 = j.getD b 0 := by
      rw [getD_eraseIdx, if_pos (by omega)]
    rw [← hget, insertIdx_eraseIdx_of_getD (by rw [List.length_eraseIdx, if_pos ha]; omega),
      insertIdx_eraseIdx_of_getD ha]

theorem getD_insertPair (h : PairFits a b (i.length + 2)) :
    (insertPair a b i k l).getD a 0 = k ∧ (insertPair a b i k l).getD b 0 = l := by
  obtain ⟨ha, hb, hne⟩ := h
  unfold insertPair
  split_ifs with hlt
  · have hlen := List.length_insertIdx_of_le_length (show a ≤ i.length by omega) k
    rw [getD_insertIdx_self (by omega), getD_insertIdx (by omega), if_pos hlt,
      getD_insertIdx_self (by omega)]
    exact ⟨rfl, rfl⟩
  · have hlen := List.length_insertIdx_of_le_length (show b ≤ i.length by omega) l
    rw [getD_insertIdx_self (by omega), getD_insertIdx (by omega), if_pos (by omega),
      getD_insertIdx_self (by omega)]
    exact ⟨rfl, rfl⟩

theorem inBounds_erasePair (h : InBounds j s) : InBounds (erasePair a b j) (erasePair a b s) := by
  unfold erasePair
  split_ifs
  · exact (h.eraseIdx b).eraseIdx a
  · exact (h.eraseIdx a).eraseIdx b

/-- A sum over positions, two axes apart from the others. -/
theorem sum_box_insertPair {M : Type*} [AddCommMonoid M] (h : PairFits a b s.length)
    (f : List ℕ → M) :
    ∑ j ∈ box s, f j = ∑ i ∈ box (erasePair a b s), ∑ k ∈ Finset.range (s.getD a 0),
      ∑ l ∈ Finset.range (s.getD b 0), f (insertPair a b i k l) := by
  have hlen := length_erasePair h
  have hs := insertPair_erasePair h
  obtain ⟨ha, hb, hne⟩ := h
  conv_lhs => rw [← hs]
  unfold insertPair
  split_ifs with hlt
  · have hlen' := List.length_insertIdx_of_le_length
      (show a ≤ (erasePair a b s).length by omega) (s.getD a 0)
    rw [sum_box_insertIdx _ (by omega), sum_box_insertIdx _ (by omega)]
  · have hlen' := List.length_insertIdx_of_le_length
      (show b ≤ (erasePair a b s).length by omega) (s.getD b 0)
    rw [sum_box_insertIdx _ (by omega), sum_box_insertIdx _ (by omega)]
    exact Finset.sum_congr rfl fun i _ => Finset.sum_comm

end Pairs

/-! ## The products -/

section Products

variable {R : Type*} [CommSemiring R]

/-- The dot products along an axis. -/
def vecdot (axis : ℕ) (shape : List ℕ) (x y : List ℕ → R) (i : List ℕ) : R :=
  ∑ k ∈ Finset.range (shape.getD axis 0), x (i.insertIdx axis k) * y (i.insertIdx axis k)

/-- The product along the last axes; a scalar scales the other operand. -/
def innerProduct (lhs rhs : List ℕ) (x y : List ℕ → R) (i : List ℕ) : R :=
  if lhs = [] then x [] * y i
  else if rhs = [] then x i * y []
  else
    ∑ k ∈ Finset.range (lhs.getD (lhs.length - 1) 0),
      x (i.take (lhs.length - 1) ++ [k]) * y (i.drop (lhs.length - 1) ++ [k])

/-- The products of all pairs of entries, by their numbers. -/
def outerProduct (lhs rhs : List ℕ) (x y : List ℕ → R) (i : List ℕ) : R :=
  x (unravel lhs (i.getD 0 0)) * y (unravel rhs (i.getD 1 0))

/-- The diagonal of two axes, as the last axis. -/
def diagonal (a b : ℕ) (x : List ℕ → R) (i : List ℕ) : R :=
  x (insertPair a b i.dropLast (i.getLastD 0) (i.getLastD 0))

/-- The sum of a diagonal of `n` entries. -/
def trace (a b n : ℕ) (x : List ℕ → R) (i : List ℕ) : R :=
  ∑ k ∈ Finset.range n, x (insertPair a b i k k)

/-! ### Adjoints -/

variable {s t : List ℕ} {a b axis : ℕ}

theorem inner_vecdot (haxis : axis < s.length) (g x y : List ℕ → R) :
    inner (s.eraseIdx axis) g (vecdot axis s x y) =
      inner s (fun j => g (j.eraseIdx axis) * y j) x := by
  have hle : axis ≤ (s.eraseIdx axis).length := by
    rw [List.length_eraseIdx, if_pos haxis]
    omega
  have hs : (s.eraseIdx axis).insertIdx axis (s.getD axis 0) = s := insertIdx_eraseIdx_of_getD haxis
  unfold inner
  conv_rhs => rw [← hs, sum_box_insertIdx _ hle]
  refine Finset.sum_congr rfl fun i _ => ?_
  rw [vecdot, Finset.mul_sum]
  refine Finset.sum_congr rfl fun k _ => ?_
  dsimp only
  rw [List.eraseIdx_insertIdx_self]
  ring

/-- An inner product with an array that lives on a diagonal. -/
theorem inner_onDiagonal (h : PairFits a b s.length) (hdim : s.getD b 0 = s.getD a 0)
    (g x : List ℕ → R) :
    inner s (fun j => g j * if j.getD a 0 = j.getD b 0 then 1 else 0) x =
      ∑ i ∈ box (erasePair a b s), ∑ k ∈ Finset.range (s.getD a 0),
        g (insertPair a b i k k) * x (insertPair a b i k k) := by
  have hlen := length_erasePair h
  rw [inner, sum_box_insertPair h, hdim]
  refine Finset.sum_congr rfl fun i hi => Finset.sum_congr rfl fun k hk => ?_
  have hfits : PairFits a b (i.length + 2) := by
    rw [(mem_box.mp hi).length_eq, hlen]
    obtain ⟨ha, hb, hne⟩ := h
    exact ⟨by omega, by omega, hne⟩
  rw [Finset.sum_eq_single_of_mem k hk]
  · rw [(getD_insertPair hfits).1, (getD_insertPair hfits).2, if_pos rfl, mul_one]
  · intro l _ hne
    rw [(getD_insertPair hfits).1, (getD_insertPair hfits).2, if_neg hne.symm, mul_zero, zero_mul]

/-- **The adjoint of a trace** spreads the gradient along the diagonal. -/
theorem inner_trace (h : PairFits a b s.length) (hdim : s.getD b 0 = s.getD a 0)
    (g x : List ℕ → R) :
    inner (erasePair a b s) g (trace a b (s.getD a 0) x) =
      inner s (fun j => g (erasePair a b j) * if j.getD a 0 = j.getD b 0 then 1 else 0) x := by
  have honly := inner_onDiagonal h hdim (fun j => g (erasePair a b j)) x
  simp only [erasePair_insertPair] at honly
  rw [honly]
  exact Finset.sum_congr rfl fun i _ => Finset.mul_sum _ _ _

/-- **The adjoint of a diagonal** puts the gradient on the diagonal. -/
theorem inner_diagonal (h : PairFits a b s.length) (hdim : s.getD b 0 = s.getD a 0)
    (g x : List ℕ → R) :
    inner (erasePair a b s ++ [s.getD a 0]) g (diagonal a b x) =
      inner s (fun j => g (erasePair a b j ++ [j.getD a 0]) *
        if j.getD a 0 = j.getD b 0 then 1 else 0) x := by
  have hlen := length_erasePair h
  rw [inner_onDiagonal h hdim fun j => g (erasePair a b j ++ [j.getD a 0]), inner, sum_box_append]
  refine Finset.sum_congr rfl fun i hi => ?_
  have hfits : PairFits a b (i.length + 2) := by
    rw [(mem_box.mp hi).length_eq, hlen]
    obtain ⟨ha, hb, hne⟩ := h
    exact ⟨by omega, by omega, hne⟩
  rw [sum_box_cons]
  refine Finset.sum_congr rfl fun k _ => ?_
  rw [sum_box_nil, diagonal, List.dropLast_concat, List.getLastD_concat, erasePair_insertPair,
    (getD_insertPair hfits).1]

theorem innerProduct_append {i c : List ℕ} (p q : List ℕ) (n : ℕ) (x y : List ℕ → R)
    (hi : InBounds i p) :
    innerProduct (p ++ [n]) (q ++ [n]) x y (i ++ c) =
      ∑ k ∈ Finset.range n, x (i ++ [k]) * y (c ++ [k]) := by
  have hlen : (p ++ [n]).length - 1 = i.length := by
    rw [List.length_append, List.length_singleton, hi.length_eq]
    omega
  rw [innerProduct, if_neg (by simp), if_neg (by simp), hlen, List.take_left' rfl,
    List.drop_left' rfl, hi.length_eq, List.getD_append_right _ _ _ _ le_rfl, Nat.sub_self]
  rfl

theorem inner_innerProduct (p q : List ℕ) (n : ℕ) (g x y : List ℕ → R) :
    inner (p ++ q) g (innerProduct (p ++ [n]) (q ++ [n]) x y) =
      ∑ i ∈ box p, ∑ c ∈ box q, ∑ k ∈ Finset.range n,
        g (i ++ c) * (x (i ++ [k]) * y (c ++ [k])) := by
  rw [inner, sum_box_append]
  refine Finset.sum_congr rfl fun i hi => Finset.sum_congr rfl fun c _ => ?_
  rw [innerProduct_append p q n x y (mem_box.mp hi), Finset.mul_sum]

/-- **The adjoint of an inner product** in its left operand contracts the gradient
with the right operand. -/
theorem inner_innerProduct_lhs (p q : List ℕ) (n : ℕ) (g x y : List ℕ → R) :
    inner (p ++ q) g (innerProduct (p ++ [n]) (q ++ [n]) x y) =
      inner (p ++ [n])
        (fun j => ∑ c ∈ box q, g (j.dropLast ++ c) * y (c ++ [j.getLastD 0])) x := by
  rw [inner_innerProduct, inner, sum_box_append]
  refine Finset.sum_congr rfl fun i _ => ?_
  rw [Finset.sum_comm, sum_box_cons]
  refine Finset.sum_congr rfl fun k _ => ?_
  rw [sum_box_nil, List.dropLast_concat, List.getLastD_concat, Finset.sum_mul]
  refine Finset.sum_congr rfl fun c _ => ?_
  ring

/-- The adjoint of an inner product in its right operand. -/
theorem inner_innerProduct_rhs (p q : List ℕ) (n : ℕ) (g x y : List ℕ → R) :
    inner (p ++ q) g (innerProduct (p ++ [n]) (q ++ [n]) x y) =
      inner (q ++ [n])
        (fun j => ∑ r ∈ box p, g (r ++ j.dropLast) * x (r ++ [j.getLastD 0])) y := by
  rw [inner_innerProduct, Finset.sum_comm, inner, sum_box_append]
  refine Finset.sum_congr rfl fun c _ => ?_
  rw [Finset.sum_comm, sum_box_cons]
  refine Finset.sum_congr rfl fun k _ => ?_
  rw [sum_box_nil, List.dropLast_concat, List.getLastD_concat, Finset.sum_mul]
  refine Finset.sum_congr rfl fun r _ => ?_
  ring

theorem inner_outerProduct (lhs rhs : List ℕ) (m n : ℕ) (g x y : List ℕ → R) :
    inner [m, n] g (outerProduct lhs rhs x y) =
      ∑ r ∈ Finset.range m, ∑ c ∈ Finset.range n,
        g [r, c] * (x (unravel lhs r) * y (unravel rhs c)) := by
  simp only [inner, sum_box_cons, sum_box_nil]
  rfl

/-! ### Flattened operands -/

theorem ravel_append {i j : List ℕ} (hlen : i.length = s.length) :
    ravel (s ++ t) (i ++ j) = ravel s i * t.prod + ravel t j := by
  induction s generalizing i with
  | nil =>
      obtain rfl := List.length_eq_zero_iff.mp hlen
      simp [ravel]
  | cons dim s ih =>
      cases i with
      | nil => simp at hlen
      | cons k i =>
          rw [List.cons_append, List.cons_append, ravel, ravel, ih (by simpa using hlen),
            List.prod_append]
          ring

/-- The row and the column of a position whose last axis has `n` entries. -/
theorem ravel_last {i : List ℕ} {k n : ℕ} (hi : InBounds i s) (hk : k < n) :
    ravel (s ++ [n]) (i ++ [k]) / n = ravel s i ∧ ravel (s ++ [n]) (i ++ [k]) % n = k := by
  have hravel : ravel (s ++ [n]) (i ++ [k]) = k + n * ravel s i := by
    rw [ravel_append hi.length_eq]
    simp [ravel]
    ring
  rw [hravel]
  exact ⟨by rw [Nat.add_mul_div_left _ _ (by omega), Nat.div_eq_of_lt hk, Nat.zero_add],
    by rw [Nat.add_mul_mod_self_left, Nat.mod_eq_of_lt hk]⟩

theorem unravel_last {i : List ℕ} {k n : ℕ} (hi : InBounds i s) (hk : k < n) :
    unravel (s ++ [n]) (ravel s i * n + k) = i ++ [k] := by
  have hravel : ravel s i * n + k = ravel (s ++ [n]) (i ++ [k]) := by
    rw [ravel_append hi.length_eq]
    simp [ravel]
  rw [hravel, unravel_ravel (inBounds_append hi (.cons hk .nil))]

theorem unravel_rows {p q i c : List ℕ} (hi : InBounds i p) (hc : InBounds c q) :
    unravel (p ++ q) (ravel p i * q.prod + ravel q c) = i ++ c := by
  rw [← ravel_append hi.length_eq, unravel_ravel (inBounds_append hi hc)]

/-- The adjoint in the left operand as a product of flattened arrays. -/
theorem sum_flattened_lhs {p q j : List ℕ} {n : ℕ} (hj : InBounds j (p ++ [n]))
    (g y : List ℕ → R) :
    ∑ c ∈ Finset.range q.prod, g (unravel (p ++ q) (ravel (p ++ [n]) j / n * q.prod + c)) *
        y (unravel (q ++ [n]) (c * n + ravel (p ++ [n]) j % n)) =
      ∑ c ∈ box q, g (j.dropLast ++ c) * y (c ++ [j.getLastD 0]) := by
  obtain ⟨i, j', rfl, hi, hj'⟩ := exists_append_of_inBounds hj
  cases hj' with
  | cons hk hrest =>
      cases hrest
      rw [(ravel_last hi hk).1, (ravel_last hi hk).2, List.dropLast_concat, List.getLastD_concat,
        ← sum_box_ravel q]
      refine Finset.sum_congr rfl fun c hc => ?_
      rw [unravel_rows hi (mem_box.mp hc), unravel_last (mem_box.mp hc) hk]

/-- The adjoint in the right operand as a product of flattened arrays. -/
theorem sum_flattened_rhs {p q j : List ℕ} {n : ℕ} (hj : InBounds j (q ++ [n]))
    (g x : List ℕ → R) :
    ∑ r ∈ Finset.range p.prod, g (unravel (p ++ q) (r * q.prod + ravel (q ++ [n]) j / n)) *
        x (unravel (p ++ [n]) (r * n + ravel (q ++ [n]) j % n)) =
      ∑ r ∈ box p, g (r ++ j.dropLast) * x (r ++ [j.getLastD 0]) := by
  obtain ⟨i, j', rfl, hi, hj'⟩ := exists_append_of_inBounds hj
  cases hj' with
  | cons hk hrest =>
      cases hrest
      rw [(ravel_last hi hk).1, (ravel_last hi hk).2, List.dropLast_concat, List.getLastD_concat,
        ← sum_box_ravel p]
      refine Finset.sum_congr rfl fun r hr => ?_
      rw [unravel_rows (mem_box.mp hr) hi, unravel_last (mem_box.mp hr) hk]

end Products

end Arrays
