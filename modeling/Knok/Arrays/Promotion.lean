import Mathlib
import Knok.Arrays.Contraction
import Knok.Arrays.Layout

/-!
# Matrix products, entry by entry

A vector operand of a product has one matrix axis less.  `lhsMatrix` and
`rhsMatrix` add the missing unit axis, and the entries of the product are written
out in a batch position, a row and a column (`matmul_entry`), in the same way for
vectors and matrices.  The products with the transposed operands are then the two
adjoints of a product (`inner_matmul_lhs`, `inner_matmul_rhs`).
-/

namespace Arrays

/-! ## Unit axes -/

/-- Leaving a unit axis out of the middle of a position. -/
theorem ravel_append_one {s t i j : List ℕ} (hlen : i.length = s.length) :
    ravel (s ++ 1 :: t) (i ++ 0 :: j) = ravel (s ++ t) (i ++ j) := by
  induction s generalizing i with
  | nil =>
      obtain rfl := List.length_eq_zero_iff.mp hlen
      rw [List.nil_append, List.nil_append, ravel, zero_mul, zero_add]
      rfl
  | cons dim s ih =>
      cases i with
      | nil => simp at hlen
      | cons k i =>
          rw [List.length_cons, List.length_cons, Nat.add_right_cancel_iff] at hlen
          rw [List.cons_append, List.cons_append, ravel, ih hlen, List.cons_append,
            List.cons_append, ravel]
          simp

/-- Reading an array with a unit axis from the array without it. -/
theorem unravel_ravel_append_one {s t i j : List ℕ} (hi : InBounds i s) (hj : InBounds j t) :
    unravel (s ++ t) (ravel (s ++ 1 :: t) (i ++ 0 :: j)) = i ++ j := by
  rw [ravel_append_one hi.length_eq, unravel_ravel (inBounds_append hi hj)]

/-- Reading an array without a unit axis from the array with it. -/
theorem unravel_append_one_ravel {s t i j : List ℕ} (hi : InBounds i s) (hj : InBounds j t) :
    unravel (s ++ 1 :: t) (ravel (s ++ t) (i ++ j)) = i ++ 0 :: j := by
  rw [← ravel_append_one hi.length_eq,
    unravel_ravel (inBounds_append hi (.cons Nat.zero_lt_one hj))]

/-! ## Promoted shapes -/

/-- The left operand of a product, a vector as a matrix of one row. -/
def lhsMatrix (lhs : List ℕ) : List ℕ := if lhs.length = 1 then 1 :: lhs else lhs

/-- The right operand of a product, a vector as a matrix of one column. -/
def rhsMatrix (rhs : List ℕ) : List ℕ := if rhs.length = 1 then rhs ++ [1] else rhs

/-- The number of rows. -/
def rowDim (lhs : List ℕ) : ℕ := if lhs.length = 1 then 1 else lhs.getD (lhs.length - 2) 0

/-- The number of columns. -/
def colDim (rhs : List ℕ) : ℕ := if rhs.length = 1 then 1 else rhs.getD (rhs.length - 1) 0

/-- The contracted dimension of the right operand. -/
def contractedDim (rhs : List ℕ) : ℕ :=
  if rhs.length = 1 then rhs.getD 0 0 else rhs.getD (rhs.length - 2) 0

/-- A coordinate along the axis that only a matrix has. -/
def matrixAxis (shape : List ℕ) (k : ℕ) : List ℕ := if shape.length = 1 then [] else [k]

theorem matmulShape_eq (batch lhs rhs : List ℕ) : matmulShape batch lhs rhs =
    batch ++ (matrixAxis lhs (rowDim lhs) ++ matrixAxis rhs (colDim rhs)) := by
  unfold matmulShape matrixAxis rowDim colDim
  split_ifs <;> rfl

theorem lhsMatrix_eq {lhs : List ℕ} (hpos : lhs.length ≠ 0) :
    lhsMatrix lhs = batchShape lhs ++ [rowDim lhs, lhs.getD (lhs.length - 1) 0] := by
  unfold lhsMatrix rowDim
  split_ifs with hvector
  · obtain ⟨dim, rfl⟩ := List.length_eq_one_iff.mp hvector
    rfl
  · exact eq_batchShape_append (by omega)

theorem rhsMatrix_eq {rhs : List ℕ} (hpos : rhs.length ≠ 0) :
    rhsMatrix rhs = batchShape rhs ++ [contractedDim rhs, colDim rhs] := by
  unfold rhsMatrix colDim contractedDim
  split_ifs with hvector
  · obtain ⟨dim, rfl⟩ := List.length_eq_one_iff.mp hvector
    rfl
  · exact eq_batchShape_append (by omega)

theorem prod_lhsMatrix (lhs : List ℕ) : (lhsMatrix lhs).prod = lhs.prod := by
  unfold lhsMatrix
  split_ifs <;> simp

theorem prod_rhsMatrix (rhs : List ℕ) : (rhsMatrix rhs).prod = rhs.prod := by
  unfold rhsMatrix
  split_ifs <;> simp

theorem prod_matmulShape (batch lhs rhs : List ℕ) :
    (matmulShape batch lhs rhs).prod = (batch ++ [rowDim lhs, colDim rhs]).prod := by
  rw [matmulShape_eq]
  unfold matrixAxis rowDim colDim
  split_ifs <;> simp

/-! ## Entries -/

/-- The entry of the left operand that a product reads. -/
def lhsRead (lhs b : List ℕ) (r t : ℕ) : List ℕ :=
  if lhs.length = 1 then [t] else broadcastIndex (batchShape lhs) b ++ [r, t]

/-- The entry of the right operand that a product reads. -/
def rhsRead (rhs b : List ℕ) (t c : ℕ) : List ℕ :=
  if rhs.length = 1 then [t] else broadcastIndex (batchShape rhs) b ++ [t, c]

section Entries

variable {R : Type*} {batch lhs rhs b : List ℕ} {r c t : ℕ}

/-- **An entry of a product.** -/
theorem matmul_entry [NonUnitalNonAssocSemiring R] (x y : List ℕ → R) :
    matmul lhs rhs x y (b ++ (matrixAxis lhs r ++ matrixAxis rhs c)) =
      ∑ t ∈ Finset.range (lhs.getD (lhs.length - 1) 0), x (lhsRead lhs b r t) * y (rhsRead rhs b t c) := by
  unfold matmul
  refine Finset.sum_congr rfl fun t _ => ?_
  have hlen : (b ++ (matrixAxis lhs r ++ matrixAxis rhs c)).length - matrixAxes lhs -
      matrixAxes rhs = b.length := by
    unfold matrixAxis matrixAxes
    split_ifs <;> simp
  have htake : (b ++ (matrixAxis lhs r ++ matrixAxis rhs c)).take b.length = b :=
    List.take_left' rfl
  have hlhs : matmulLhsPosition lhs rhs (b ++ (matrixAxis lhs r ++ matrixAxis rhs c)) t =
      lhsRead lhs b r t := by
    unfold matmulLhsPosition lhsRead
    split_ifs with hvector
    · rfl
    · dsimp only
      rw [hlen, htake, List.getD_append_right _ _ _ _ le_rfl, Nat.sub_self, matrixAxis,
        if_neg hvector]
      rfl
  have hrhs : matmulRhsPosition lhs rhs (b ++ (matrixAxis lhs r ++ matrixAxis rhs c)) t =
      rhsRead rhs b t c := by
    unfold matmulRhsPosition rhsRead
    split_ifs with hvector
    · rfl
    · dsimp only
      have hlast : (b ++ (matrixAxis lhs r ++ [c])).length - 1 = (b ++ matrixAxis lhs r).length := by
        simp
      have hcol : matrixAxis rhs c = [c] := if_neg hvector
      rw [hlen, htake, hcol, hlast, ← List.append_assoc, List.getD_append_right _ _ _ _ le_rfl,
        Nat.sub_self]
      rfl
  rw [hlhs, hrhs]

/-- Matrices read in place. -/
theorem lhsRead_append (s : List ℕ) (m k : ℕ) :
    lhsRead (s ++ [m, k]) b r t = broadcastIndex s b ++ [r, t] := by
  have hbatch : batchShape (s ++ [m, k]) = s := by
    rw [batchShape]
    exact List.take_left' (by simp)
  rw [lhsRead, if_neg (by simp), hbatch]

theorem rhsRead_append (s : List ℕ) (k n : ℕ) :
    rhsRead (s ++ [k, n]) b t c = broadcastIndex s b ++ [t, c] := by
  have hbatch : batchShape (s ++ [k, n]) = s := by
    rw [batchShape]
    exact List.take_left' (by simp)
  rw [rhsRead, if_neg (by simp), hbatch]

theorem matrixAxis_append (s : List ℕ) (m k n : ℕ) : matrixAxis (s ++ [m, k]) n = [n] :=
  if_neg (by simp)

/-- Sums over the positions of a product. -/
theorem sum_matmulShape [AddCommMonoid R] (batch lhs rhs : List ℕ) (f : List ℕ → R) :
    ∑ i ∈ box (matmulShape batch lhs rhs), f i =
      ∑ b ∈ box batch, ∑ r ∈ Finset.range (rowDim lhs), ∑ c ∈ Finset.range (colDim rhs),
        f (b ++ (matrixAxis lhs r ++ matrixAxis rhs c)) := by
  rw [matmulShape_eq, sum_box_append]
  refine Finset.sum_congr rfl fun b _ => ?_
  unfold matrixAxis rowDim colDim
  split_ifs <;> simp [sum_box_cons]

/-! ### Reading promoted operands -/

/-- The entries of a reshaped array. -/
def reshaped (s t : List ℕ) (x : List ℕ → R) (i : List ℕ) : R := x (unravel s (ravel t i))

theorem reshaped_self {s i : List ℕ} (x : List ℕ → R) (hi : InBounds i s) : reshaped s s x i = x i := by
  rw [reshaped, unravel_ravel hi]

theorem inBounds_of_batch (hbatch : BroadcastsTo (batchShape lhs) batch) (hb : InBounds b batch)
    {dims j : List ℕ} (hj : InBounds j dims) :
    InBounds (broadcastIndex (batchShape lhs) b ++ j) (batchShape lhs ++ dims) :=
  inBounds_append (hbatch.inBounds hb) hj

/-- The left operand, read as a matrix. -/
theorem reshaped_lhsMatrix (x : List ℕ → R) (hpos : lhs.length ≠ 0)
    (hbatch : BroadcastsTo (batchShape lhs) batch) (hb : InBounds b batch) (hr : r < rowDim lhs)
    (ht : t < lhs.getD (lhs.length - 1) 0) :
    reshaped lhs (lhsMatrix lhs) x (broadcastIndex (batchShape lhs) b ++ [r, t]) =
      x (lhsRead lhs b r t) := by
  by_cases hvector : lhs.length = 1
  · obtain ⟨dim, rfl⟩ := List.length_eq_one_iff.mp hvector
    obtain rfl : r = 0 := Nat.lt_one_iff.mp hr
    exact congrArg x (@unravel_ravel_append_one [] [dim] [] [t] .nil (.cons ht .nil))
  · have hin := inBounds_of_batch hbatch hb (.cons hr (.cons ht .nil))
    rw [← lhsMatrix_eq hpos, lhsMatrix, if_neg hvector] at hin
    rw [lhsMatrix, if_neg hvector, reshaped_self x hin, lhsRead, if_neg hvector]

/-- The right operand, read as a matrix. -/
theorem reshaped_rhsMatrix (x : List ℕ → R) (hpos : rhs.length ≠ 0)
    (hbatch : BroadcastsTo (batchShape rhs) batch) (hb : InBounds b batch)
    (ht : t < contractedDim rhs) (hc : c < colDim rhs) :
    reshaped rhs (rhsMatrix rhs) x (broadcastIndex (batchShape rhs) b ++ [t, c]) =
      x (rhsRead rhs b t c) := by
  by_cases hvector : rhs.length = 1
  · obtain ⟨dim, rfl⟩ := List.length_eq_one_iff.mp hvector
    obtain rfl : c = 0 := Nat.lt_one_iff.mp hc
    exact congrArg x (@unravel_ravel_append_one [dim] [] [t] [] (.cons ht .nil) .nil)
  · have hin := inBounds_of_batch hbatch hb (.cons ht (.cons hc .nil))
    rw [← rhsMatrix_eq hpos, rhsMatrix, if_neg hvector] at hin
    rw [rhsMatrix, if_neg hvector, reshaped_self x hin, rhsRead, if_neg hvector]

/-- A result, read as a batch of matrices. -/
theorem reshaped_matmulShape (x : List ℕ → R) (hb : InBounds b batch) (hr : r < rowDim lhs)
    (hc : c < colDim rhs) :
    reshaped (matmulShape batch lhs rhs) (batch ++ [rowDim lhs, colDim rhs]) x (b ++ [r, c]) =
      x (b ++ (matrixAxis lhs r ++ matrixAxis rhs c)) := by
  refine congrArg x ?_
  rw [matmulShape_eq]
  by_cases hl : lhs.length = 1
  · have hrow : rowDim lhs = 1 := if_pos hl
    rw [hrow] at hr ⊢
    obtain rfl : r = 0 := Nat.lt_one_iff.mp hr
    simp only [matrixAxis, if_pos hl, List.nil_append]
    by_cases hv : rhs.length = 1
    · have hcol : colDim rhs = 1 := if_pos hv
      rw [hcol] at hc ⊢
      obtain rfl : c = 0 := Nat.lt_one_iff.mp hc
      simp only [if_pos hv, List.append_nil]
      rw [ravel_append_one hb.length_eq, ravel_append_one hb.length_eq, List.append_nil,
        List.append_nil, unravel_ravel hb]
    · simp only [if_neg hv]
      exact unravel_ravel_append_one hb (.cons hc .nil)
  · simp only [matrixAxis, if_neg hl]
    by_cases hv : rhs.length = 1
    · have hcol : colDim rhs = 1 := if_pos hv
      rw [hcol] at hc ⊢
      obtain rfl : c = 0 := Nat.lt_one_iff.mp hc
      simp only [if_pos hv, List.append_nil]
      have hread := @unravel_ravel_append_one (batch ++ [rowDim lhs]) [] (b ++ [r]) []
        (inBounds_append hb (.cons hr .nil)) .nil
      simpa only [List.append_assoc, List.append_nil, List.singleton_append] using hread
    · simp only [if_neg hv]
      exact unravel_ravel (inBounds_append hb (.cons hr (.cons hc .nil)))

/-- The gradient of the left operand before its batch axes are summed, a matrix
read back as the operand has it. -/
theorem reshaped_lhsShape (x : List ℕ → R) {k : ℕ} (hb : InBounds b batch) (hr : r < rowDim lhs)
    (ht : t < k) :
    reshaped (batch ++ [rowDim lhs, k]) (batch ++ (matrixAxis lhs (rowDim lhs) ++ [k])) x
      (b ++ (matrixAxis lhs r ++ [t])) = x (b ++ [r, t]) := by
  refine congrArg x ?_
  by_cases hl : lhs.length = 1
  · have hrow : rowDim lhs = 1 := if_pos hl
    rw [hrow] at hr ⊢
    obtain rfl : r = 0 := Nat.lt_one_iff.mp hr
    simp only [matrixAxis, if_pos hl, List.nil_append]
    exact unravel_append_one_ravel hb (.cons ht .nil)
  · simp only [matrixAxis, if_neg hl]
    exact unravel_ravel (inBounds_append hb (.cons hr (.cons ht .nil)))

/-- The gradient of the right operand before its batch axes are summed. -/
theorem reshaped_rhsShape (x : List ℕ → R) {k : ℕ} (hb : InBounds b batch) (ht : t < k)
    (hc : c < colDim rhs) :
    reshaped (batch ++ [k, colDim rhs]) (batch ++ ([k] ++ matrixAxis rhs (colDim rhs))) x
      (b ++ ([t] ++ matrixAxis rhs c)) = x (b ++ [t, c]) := by
  refine congrArg x ?_
  by_cases hv : rhs.length = 1
  · have hcol : colDim rhs = 1 := if_pos hv
    rw [hcol] at hc ⊢
    obtain rfl : c = 0 := Nat.lt_one_iff.mp hc
    simp only [matrixAxis, if_pos hv, List.append_nil]
    have hread := @unravel_append_one_ravel (batch ++ [k]) [] (b ++ [t]) []
      (inBounds_append hb (.cons ht .nil)) .nil
    simpa only [List.append_assoc, List.append_nil, List.singleton_append] using hread
  · simp only [matrixAxis, if_neg hv]
    exact unravel_ravel (inBounds_append hb (.cons ht (.cons hc .nil)))

/-! ### Where a gradient is summed to -/

theorem broadcastsTo_append {s s' : List ℕ} (h : BroadcastsTo s s') (t : List ℕ) :
    BroadcastsTo (s ++ t) (s' ++ t) := by
  obtain ⟨hle, hdims⟩ := h
  refine ⟨by simp [hle], ?_⟩
  have hdrop : (s' ++ t).length - (s ++ t).length = s'.length - s.length := by
    rw [List.length_append, List.length_append]
    omega
  rw [hdrop, List.drop_append_of_le_length (Nat.sub_le _ _)]
  exact List.rel_append hdims (List.forall₂_same.mpr fun _ _ => .inl rfl)

theorem broadcastIndex_append {s t b j : List ℕ} (hle : s.length ≤ b.length) (hj : InBounds j t) :
    broadcastIndex (s ++ t) (b ++ j) = broadcastIndex s b ++ j := by
  have hdrop : (b ++ j).length - (s ++ t).length = b.length - s.length := by
    rw [List.length_append, List.length_append, hj.length_eq]
    omega
  have hself := broadcastIndex_self hj
  rw [broadcastIndex, hj.length_eq, Nat.sub_self, List.drop_zero] at hself
  rw [broadcastIndex, hdrop, List.drop_append_of_le_length (Nat.sub_le _ _),
    List.zipWith_append (by rw [List.length_drop]; omega), hself, ← broadcastIndex]

theorem eq_lhsShape (hpos : lhs.length ≠ 0) :
    lhs = batchShape lhs ++ (matrixAxis lhs (rowDim lhs) ++ [lhs.getD (lhs.length - 1) 0]) := by
  by_cases hvector : lhs.length = 1
  · obtain ⟨dim, rfl⟩ := List.length_eq_one_iff.mp hvector
    rfl
  · rw [matrixAxis, rowDim, if_neg hvector, if_neg hvector]
    exact eq_batchShape_append (by omega)

theorem eq_rhsShape (hpos : rhs.length ≠ 0) :
    rhs = batchShape rhs ++ ([contractedDim rhs] ++ matrixAxis rhs (colDim rhs)) := by
  by_cases hvector : rhs.length = 1
  · obtain ⟨dim, rfl⟩ := List.length_eq_one_iff.mp hvector
    rfl
  · rw [matrixAxis, contractedDim, colDim, if_neg hvector, if_neg hvector, if_neg hvector]
    exact eq_batchShape_append (by omega)

theorem broadcastsTo_lhsShape (hpos : lhs.length ≠ 0) (hbatch : BroadcastsTo (batchShape lhs) batch) :
    BroadcastsTo lhs (batch ++ (matrixAxis lhs (rowDim lhs) ++ [lhs.getD (lhs.length - 1) 0])) := by
  conv => lhs; rw [eq_lhsShape hpos]
  exact broadcastsTo_append hbatch _

theorem broadcastsTo_rhsShape (hpos : rhs.length ≠ 0) (hbatch : BroadcastsTo (batchShape rhs) batch) :
    BroadcastsTo rhs (batch ++ ([contractedDim rhs] ++ matrixAxis rhs (colDim rhs))) := by
  conv => lhs; rw [eq_rhsShape hpos]
  exact broadcastsTo_append hbatch _

theorem broadcastIndex_lhsShape (hpos : lhs.length ≠ 0)
    (hbatch : BroadcastsTo (batchShape lhs) batch) (hb : InBounds b batch) (hr : r < rowDim lhs)
    (ht : t < lhs.getD (lhs.length - 1) 0) :
    broadcastIndex lhs (b ++ (matrixAxis lhs r ++ [t])) = lhsRead lhs b r t := by
  have hj : InBounds (matrixAxis lhs r ++ [t])
      (matrixAxis lhs (rowDim lhs) ++ [lhs.getD (lhs.length - 1) 0]) := by
    unfold matrixAxis
    split_ifs
    · exact .cons ht .nil
    · exact .cons hr (.cons ht .nil)
  have hread := broadcastIndex_append (hb.length_eq ▸ hbatch.1 : _ ≤ b.length) hj
  rw [← eq_lhsShape hpos] at hread
  rw [hread, lhsRead, matrixAxis]
  split_ifs with hvector
  · rw [batchShape_of_length_le_two (by omega)]
    rfl
  · rfl

theorem broadcastIndex_rhsShape (hpos : rhs.length ≠ 0)
    (hbatch : BroadcastsTo (batchShape rhs) batch) (hb : InBounds b batch)
    (ht : t < contractedDim rhs) (hc : c < colDim rhs) :
    broadcastIndex rhs (b ++ ([t] ++ matrixAxis rhs c)) = rhsRead rhs b t c := by
  have hj : InBounds ([t] ++ matrixAxis rhs c)
      ([contractedDim rhs] ++ matrixAxis rhs (colDim rhs)) := by
    unfold matrixAxis
    split_ifs
    · exact .cons ht .nil
    · exact .cons ht (.cons hc .nil)
  have hread := broadcastIndex_append (hb.length_eq ▸ hbatch.1 : _ ≤ b.length) hj
  rw [← eq_rhsShape hpos] at hread
  rw [hread, rhsRead, matrixAxis]
  split_ifs with hvector
  · rw [batchShape_of_length_le_two (by omega)]
    rfl
  · rfl

end Entries

/-! ## Adjoints -/

section Adjoints

variable {R : Type*} [CommSemiring R] {batch lhs rhs : List ℕ} {g v w y : List ℕ → R}

theorem inner_comm (s : List ℕ) (x y : List ℕ → R) : inner s x y = inner s y x :=
  Finset.sum_congr rfl fun _ _ => mul_comm _ _

/-- **The adjoint of a product in its left operand**: the gradient times the right
operand transposed, summed over what the left operand is broadcast along. -/
theorem inner_matmul_lhs (hpos : lhs.length ≠ 0) (hbatch : BroadcastsTo (batchShape lhs) batch)
    (hy : ∀ b, InBounds b batch → ∀ r < rowDim lhs, ∀ t < lhs.getD (lhs.length - 1) 0,
      y (b ++ (matrixAxis lhs r ++ [t])) = ∑ c ∈ Finset.range (colDim rhs),
        g (b ++ (matrixAxis lhs r ++ matrixAxis rhs c)) * w (rhsRead rhs b t c)) :
    inner (matmulShape batch lhs rhs) g (matmul lhs rhs v w) =
      inner lhs (push (batch ++ (matrixAxis lhs (rowDim lhs) ++ [lhs.getD (lhs.length - 1) 0]))
        (fun i => some (broadcastIndex lhs i)) y) v := by
  rw [inner_comm lhs, ← inner_pull (mapsBox_broadcast (broadcastsTo_lhsShape hpos hbatch)), inner,
    inner, sum_matmulShape, sum_box_append]
  refine Finset.sum_congr rfl fun b hb => ?_
  have hb := mem_box.mp hb
  have hsplit : ∀ f : List ℕ → R, ∑ j ∈ box (matrixAxis lhs (rowDim lhs) ++
      [lhs.getD (lhs.length - 1) 0]), f j = ∑ r ∈ Finset.range (rowDim lhs),
        ∑ t ∈ Finset.range (lhs.getD (lhs.length - 1) 0), f (matrixAxis lhs r ++ [t]) := by
    intro f
    unfold matrixAxis rowDim
    split_ifs <;> simp [sum_box_cons]
  rw [hsplit]
  refine Finset.sum_congr rfl fun r hr => ?_
  have hr := Finset.mem_range.mp hr
  calc ∑ c ∈ Finset.range (colDim rhs), g (b ++ (matrixAxis lhs r ++ matrixAxis rhs c)) *
          matmul lhs rhs v w (b ++ (matrixAxis lhs r ++ matrixAxis rhs c))
      = ∑ c ∈ Finset.range (colDim rhs), ∑ t ∈ Finset.range (lhs.getD (lhs.length - 1) 0),
          v (lhsRead lhs b r t) * (g (b ++ (matrixAxis lhs r ++ matrixAxis rhs c)) *
            w (rhsRead rhs b t c)) := by
        refine Finset.sum_congr rfl fun c _ => ?_
        rw [matmul_entry, Finset.mul_sum]
        exact Finset.sum_congr rfl fun t _ => by ring
    _ = ∑ t ∈ Finset.range (lhs.getD (lhs.length - 1) 0), ∑ c ∈ Finset.range (colDim rhs),
          v (lhsRead lhs b r t) * (g (b ++ (matrixAxis lhs r ++ matrixAxis rhs c)) *
            w (rhsRead rhs b t c)) := Finset.sum_comm
    _ = _ := by
        refine Finset.sum_congr rfl fun t ht => ?_
        have ht := Finset.mem_range.mp ht
        rw [hy b hb r hr t ht, ← Finset.mul_sum]
        show _ = v (broadcastIndex lhs _) * _
        rw [broadcastIndex_lhsShape hpos hbatch hb hr ht]

/-- **The adjoint of a product in its right operand**: the left operand transposed
times the gradient. -/
theorem inner_matmul_rhs (hpos : rhs.length ≠ 0) (hbatch : BroadcastsTo (batchShape rhs) batch)
    (hdim : lhs.getD (lhs.length - 1) 0 = contractedDim rhs)
    (hy : ∀ b, InBounds b batch → ∀ t < contractedDim rhs, ∀ c < colDim rhs,
      y (b ++ ([t] ++ matrixAxis rhs c)) = ∑ r ∈ Finset.range (rowDim lhs),
        v (lhsRead lhs b r t) * g (b ++ (matrixAxis lhs r ++ matrixAxis rhs c))) :
    inner (matmulShape batch lhs rhs) g (matmul lhs rhs v w) =
      inner rhs (push (batch ++ ([contractedDim rhs] ++ matrixAxis rhs (colDim rhs)))
        (fun i => some (broadcastIndex rhs i)) y) w := by
  rw [inner_comm rhs, ← inner_pull (mapsBox_broadcast (broadcastsTo_rhsShape hpos hbatch)), inner,
    inner, sum_matmulShape, sum_box_append]
  refine Finset.sum_congr rfl fun b hb => ?_
  have hb := mem_box.mp hb
  have hsplit : ∀ f : List ℕ → R, ∑ j ∈ box ([contractedDim rhs] ++
      matrixAxis rhs (colDim rhs)), f j = ∑ t ∈ Finset.range (contractedDim rhs),
        ∑ c ∈ Finset.range (colDim rhs), f ([t] ++ matrixAxis rhs c) := by
    intro f
    unfold matrixAxis colDim
    split_ifs <;> simp [sum_box_cons]
  rw [hsplit]
  calc ∑ r ∈ Finset.range (rowDim lhs), ∑ c ∈ Finset.range (colDim rhs),
        g (b ++ (matrixAxis lhs r ++ matrixAxis rhs c)) *
          matmul lhs rhs v w (b ++ (matrixAxis lhs r ++ matrixAxis rhs c))
      = ∑ r ∈ Finset.range (rowDim lhs), ∑ c ∈ Finset.range (colDim rhs),
          ∑ t ∈ Finset.range (contractedDim rhs), w (rhsRead rhs b t c) *
            (v (lhsRead lhs b r t) * g (b ++ (matrixAxis lhs r ++ matrixAxis rhs c))) := by
        refine Finset.sum_congr rfl fun r _ => Finset.sum_congr rfl fun c _ => ?_
        rw [matmul_entry, Finset.mul_sum, hdim]
        exact Finset.sum_congr rfl fun t _ => by ring
    _ = ∑ r ∈ Finset.range (rowDim lhs), ∑ t ∈ Finset.range (contractedDim rhs),
          ∑ c ∈ Finset.range (colDim rhs), w (rhsRead rhs b t c) *
            (v (lhsRead lhs b r t) * g (b ++ (matrixAxis lhs r ++ matrixAxis rhs c))) :=
        Finset.sum_congr rfl fun r _ => Finset.sum_comm
    _ = ∑ t ∈ Finset.range (contractedDim rhs), ∑ c ∈ Finset.range (colDim rhs),
          ∑ r ∈ Finset.range (rowDim lhs), w (rhsRead rhs b t c) *
            (v (lhsRead lhs b r t) * g (b ++ (matrixAxis lhs r ++ matrixAxis rhs c))) := by
        rw [Finset.sum_comm]
        exact Finset.sum_congr rfl fun t _ => Finset.sum_comm
    _ = _ := by
        refine Finset.sum_congr rfl fun t ht => Finset.sum_congr rfl fun c hc => ?_
        have ht := Finset.mem_range.mp ht
        have hc := Finset.mem_range.mp hc
        rw [hy b hb t ht c hc, ← Finset.mul_sum]
        show _ = w (broadcastIndex rhs _) * _
        rw [broadcastIndex_rhsShape hpos hbatch hb ht hc]

end Adjoints

end Arrays
