import Mathlib
import Knok.Exact
import Knok.Arrays.Extreme
import Knok.IndexRule
import Knok.ProductRule
import Knok.ReductionRule
import Knok.StaticIntegers

/-!
# Numbers beside integers

The operations that a ring has no meaning for: comparisons, conditions, indices
and literals.  An entry is a number beside an integer; float tensors use the
number, and index and boolean tensors the integer.

### Design decisions

* **A ring again.**  Pairs of a number and an integer are a ring, so the rules of
  evaluation hold for them; both components are evaluated side by side.
* **Integers.**  Integer arithmetic wraps around.  An entry keeps an integer of
  the residue, and what looks at it (a comparison, an index, a division) reads
  its two's complement value (`ElementType.signed`).
* **Numbers.**  What a number type has beyond the ring operations is a parameter
  (`Numbers`); an ordered ring and a field provide it.
-/

namespace Knok

open Arrays Control

universe u

/-- What numbers have beyond the ring operations. -/
structure Numbers (R : Type u) where
  literal : String → R
  div : R → R → R
  less : R → R → Bool
  equal : R → R → Bool

/-- Numbers of a linear order are compared as they are. -/
def Numbers.ofOrder {R : Type u} [LinearOrder R] (literal : String → R) (div : R → R → R) :
    Numbers R :=
  ⟨literal, div, fun a b => decide (a < b), fun a b => decide (a = b)⟩

/-- A decimal literal. -/
def decimal {K : Type u} [Field K] (text : String) : K :=
  let whole := text.toList.takeWhile (· != '.')
  let fraction := (text.toList.dropWhile (· != '.')).tail
  ((String.ofList whole).toNat?.getD 0 : ℕ) +
    ((String.ofList fraction).toNat?.getD 0 : ℕ) / 10 ^ fraction.length

/-- A count that is written as a float. -/
theorem decimal_count {K : Type u} [Field K] (n : ℕ) : (decimal (toString n ++ ".0") : K) = n := by
  have hdigits : ∀ c ∈ (toString n).toList, (c != '.') = true := by
    intro c hc
    have htext : (toString n).toList = Nat.toDigits 10 n := Nat.toList_repr
    rw [htext] at hc
    have hdigit := Nat.isDigit_of_mem_toDigits (by omega) (by omega) hc
    rw [bne_iff_ne]
    rintro rfl
    exact absurd hdigit (by decide)
  have hlist : (toString n ++ ".0").toList = (toString n).toList ++ ['.', '0'] := by
    rw [String.toList_append]
    rfl
  have hwhole : (toString n ++ ".0").toList.takeWhile (· != '.') = (toString n).toList := by
    rw [hlist, List.takeWhile_append_of_pos hdigits]
    simp
  have hfraction : ((toString n ++ ".0").toList.dropWhile (· != '.')).tail = ['0'] := by
    rw [hlist, List.dropWhile_append_of_pos hdigits]
    simp
  have hparse : (toString n).toNat? = some n := Nat.toNat?_repr n
  have hzero : (String.ofList ['0']).toNat? = some 0 := Nat.toNat?_repr 0
  unfold decimal
  dsimp only
  rw [hwhole, hfraction, String.ofList_toList, hparse, hzero]
  simp

/-- Numbers of a field, with any comparisons. -/
def Numbers.ofField {K : Type u} [Field K] (less equal : K → K → Bool) : Numbers K :=
  ⟨decimal, (· / ·), less, equal⟩

/-- An entry of a tensor: a number beside an integer. -/
abbrev Entry (R : Type u) := R × ℤ

/-- The two's complement value of an integer in the width of its type. -/
def ElementType.signed (elem : ElementType) (n : ℤ) : ℤ :=
  match elem.intWidth with
  | some width => n.bmod (2 ^ width)
  | none => n

theorem ElementType.signed_of_fits {elem : ElementType} {width : ℕ}
    (hwidth : elem.intWidth = some width) {n : ℤ} (h : FitsWidth width n) :
    elem.signed n = n := by
  obtain ⟨hlow, hhigh⟩ := h
  unfold signed
  rw [hwidth]
  cases elem with
  | i32 | i64 =>
      cases hwidth
      exact Int.bmod_eq_of_le_mul_two (by push_cast; omega) (by push_cast; omega)
  | _ => cases hwidth

/-- A sum wraps around as the sum of the wrapped terms does. -/
theorem ElementType.signed_add (elem : ElementType) (m n : ℤ) :
    elem.signed (m + n) = elem.signed (elem.signed m + n) := by
  unfold signed
  cases elem.intWidth with
  | none => rfl
  | some width => exact Int.bmod_add_bmod.symm

/-- The integer of a boolean or integer literal. -/
def integerLiteral (text : String) : ℤ :=
  text.toInt?.getD (if text = "true" then 1 else 0)

@[simp] theorem integerLiteral_nat (n : ℕ) : integerLiteral (toString n) = n := by
  have hparse : (toString n).toInt? = some (n : ℤ) := Nat.toInt?_repr n
  rw [integerLiteral, hparse]
  rfl

@[simp] theorem integerLiteral_int (n : ℤ) : integerLiteral (toString n) = n := by
  have htext : toString n = n.repr := by cases n <;> rfl
  have hparse : (toString n).toInt? = some n := htext ▸ Int.toInt?_repr n
  rw [integerLiteral, hparse]
  rfl

section Entries

variable {R : Type u} [CommRing R]

/-- The entry of a condition. -/
def truth (b : Bool) : Entry R := (0, if b then 1 else 0)

/-- Whether a condition holds. -/
def holds (e : Entry R) : Bool := e.2 != 0

@[simp] theorem holds_truth (b : Bool) : holds (truth b : Entry R) = b := by
  cases b <;> rfl

/-- A number as an entry. -/
def number (a : R) : Entry R := (a, 0)

end Entries

namespace Numbers

variable {R : Type u} [CommRing R] (N : Numbers R)

/-- Comparison of two entries of an element type. -/
def lessAt (elem : ElementType) (a b : Entry R) : Bool :=
  if elem.isFloat then N.less a.1 b.1 else decide (elem.signed a.2 < elem.signed b.2)

/-- Equality of two entries of an element type. -/
def equalAt (elem : ElementType) (a b : Entry R) : Bool :=
  if elem.isFloat then N.equal a.1 b.1 else decide (elem.signed a.2 = elem.signed b.2)

omit [CommRing R] in
theorem lessAt_ofOrder [LinearOrder R] {elem : ElementType} (helem : elem.isFloat = true)
    (literal : String → R) (div : R → R → R) (a b : Entry R) :
    (ofOrder literal div).lessAt elem a b = decide (a.1 < b.1) :=
  if_pos helem

omit [CommRing R] in
theorem equalAt_ofOrder [LinearOrder R] {elem : ElementType} (helem : elem.isFloat = true)
    (literal : String → R) (div : R → R → R) (a b : Entry R) :
    (ofOrder literal div).equalAt elem a b = decide (a.1 = b.1) :=
  if_pos helem

/-- The smaller of two entries. -/
def minimumAt (elem : ElementType) (a b : Entry R) : Entry R :=
  if N.lessAt elem b a then b else a

/-- The larger of two entries. -/
def maximumAt (elem : ElementType) (a b : Entry R) : Entry R :=
  if N.lessAt elem a b then b else a

omit [CommRing R] in
theorem minimumAt_ofOrder [LinearOrder R] {elem : ElementType} (helem : elem.isFloat = true)
    (literal : String → R) (div : R → R → R) (a b : Entry R) :
    ((ofOrder literal div).minimumAt elem a b).1 = min a.1 b.1 := by
  unfold minimumAt
  rw [lessAt_ofOrder helem]
  by_cases h : b.1 < a.1
  · rw [decide_eq_true h, if_pos rfl, min_eq_right h.le]
  · rw [decide_eq_false h, if_neg Bool.false_ne_true, min_eq_left (not_lt.mp h)]

omit [CommRing R] in
theorem maximumAt_ofOrder [LinearOrder R] {elem : ElementType} (helem : elem.isFloat = true)
    (literal : String → R) (div : R → R → R) (a b : Entry R) :
    ((ofOrder literal div).maximumAt elem a b).1 = max a.1 b.1 := by
  unfold maximumAt
  rw [lessAt_ofOrder helem]
  by_cases h : a.1 < b.1
  · rw [decide_eq_true h, if_pos rfl, max_eq_right h.le]
  · rw [decide_eq_false h, if_neg Bool.false_ne_true, max_eq_left (not_lt.mp h)]

/-- One of several entries, picked pair by pair. -/
def pickAt (pick : Entry R → Entry R → Entry R) : List (Entry R) → Entry R
  | [] => 0
  | e :: es => es.foldl pick e

/-- Picking by rank ends with an entry of highest rank. -/
theorem pickAt_spec {α : Type u} [LinearOrder α] {pick : Entry R → Entry R → Entry R}
    (rank : Entry R → α) (hpick : ∀ a b, pick a b = a ∨ pick a b = b)
    (hrank : ∀ a b, rank a ≤ rank (pick a b) ∧ rank b ≤ rank (pick a b)) {es : List (Entry R)}
    (hes : es ≠ []) : pickAt pick es ∈ es ∧ ∀ e ∈ es, rank e ≤ rank (pickAt pick es) := by
  cases es with
  | nil => exact absurd rfl hes
  | cons e es =>
      obtain ⟨hmem, hfirst, hrest⟩ := foldl_pick rank hpick hrank es e
      exact ⟨List.mem_cons.mpr hmem, List.forall_mem_cons.mpr ⟨hfirst, hrest⟩⟩

section Order

variable [LinearOrder R] {elem : ElementType} {es : List (Entry R)}

/-- **The larger of several entries** is one of them and the greatest. -/
theorem pickAt_maximumAt (helem : elem.isFloat = true) (literal : String → R) (div : R → R → R)
    (hes : es ≠ []) :
    pickAt ((ofOrder literal div).maximumAt elem) es ∈ es ∧
      ∀ e ∈ es, e.1 ≤ (pickAt ((ofOrder literal div).maximumAt elem) es).1 := by
  refine pickAt_spec Prod.fst (fun a b => ?_) (fun a b => ?_) hes
  · unfold maximumAt
    exact (ite_eq_or_eq _ _ _).symm
  · rw [maximumAt_ofOrder helem]
    exact ⟨le_max_left _ _, le_max_right _ _⟩

/-- **The smaller of several entries** is one of them and the least. -/
theorem pickAt_minimumAt (helem : elem.isFloat = true) (literal : String → R) (div : R → R → R)
    (hes : es ≠ []) :
    pickAt ((ofOrder literal div).minimumAt elem) es ∈ es ∧
      ∀ e ∈ es, (pickAt ((ofOrder literal div).minimumAt elem) es).1 ≤ e.1 := by
  refine pickAt_spec (fun e => OrderDual.toDual e.1) (fun a b => ?_) (fun a b => ?_) hes
  · unfold minimumAt
    exact (ite_eq_or_eq _ _ _).symm
  · rw [minimumAt_ofOrder helem]
    exact ⟨min_le_left _ _, min_le_right _ _⟩

end Order

/-- The mean of the numbers that a reduction combines. -/
def meanAt (x : Tensor (Entry R)) (axis : AxisSpec) (i : List ℕ) : R :=
  N.div (x.sum axis i).1 (axis.count x.ty.shape : ℕ)

/-- The squared deviation of a number from the mean of its group. -/
def deviation (x : Tensor (Entry R)) (axis : AxisSpec) : Tensor (Entry R) :=
  ⟨x.ty, fun j => number (((x.entry j).1 - N.meanAt x axis (axis.reduce j)) ^ 2)⟩

/-- The entries of the operations beyond ring arithmetic. -/
def otherEntry (op : CallOp) (xs : List (Tensor (Entry R))) (_result : ℕ) (i : List ℕ) :
    Entry R :=
  let x := xs.getD 0 ⟨default, fun _ => 0⟩
  let y := xs.getD 1 ⟨default, fun _ => 0⟩
  let z := xs.getD 2 ⟨default, fun _ => 0⟩
  let elem := x.ty.elem
  match op with
  | .equal => truth (N.equalAt elem (x.at i) (y.at i))
  | .notEqual => truth (!N.equalAt elem (x.at i) (y.at i))
  | .less => truth (N.lessAt elem (x.at i) (y.at i))
  | .lessEqual => truth (!N.lessAt elem (y.at i) (x.at i))
  | .greater => truth (N.lessAt elem (y.at i) (x.at i))
  | .greaterEqual => truth (!N.lessAt elem (x.at i) (y.at i))
  | .logicalAnd => truth (holds (x.at i) && holds (y.at i))
  | .logicalOr => truth (holds (x.at i) || holds (y.at i))
  | .logicalXor => truth (xor (holds (x.at i)) (holds (y.at i)))
  | .logicalNot => truth (!holds (x.at i))
  | .where_ => if holds (x.at i) then y.at i else z.at i
  | .minimum => N.minimumAt elem (x.at i) (y.at i)
  | .maximum => N.maximumAt elem (x.at i) (y.at i)
  -- as it is lowered: a minimum, then a maximum
  | .clip => N.maximumAt elem (N.minimumAt elem (x.at i) (z.at i)) (y.at i)
  | .arange _ =>
      match xs with
      | [_] => (i.getD 0 0 : ℕ)
      | [start, _] => start.entry [] + (i.getD 0 0 : ℕ)
      | _ => x.entry [] + z.entry [] * (i.getD 0 0 : ℕ)
  | .eye _ => if i.getD 0 0 = i.getD 1 0 then 1 else 0
  | .prod axis => x.prod axis i
  | .max axis => pickAt (N.maximumAt elem) (x.group axis i)
  | .min axis => pickAt (N.minimumAt elem) (x.group axis i)
  | .mean axis => number (N.meanAt x axis i)
  | .var axis => number (N.meanAt (N.deviation x axis) axis i)
  | .dot => vecdot 0 x.ty.shape x.entry y.entry i
  | .vecdot axis => vecdot (axis.getD (x.ty.rank - 1)) x.ty.shape x.entry y.entry i
  | .inner => innerProduct x.ty.shape y.ty.shape x.entry y.entry i
  | .outer => outerProduct x.ty.shape y.ty.shape x.entry y.entry i
  | .trace axes =>
      let (a, b) := pairAxes axes x.ty.rank
      Arrays.trace a b (x.ty.dim a) x.entry i
  | .diagonal axes =>
      let (a, b) := pairAxes axes x.ty.rank
      Arrays.diagonal a b x.entry i
  | .gather _ _ | .takeAlongAxis _ =>
      x.entry (op.readPosition x.ty y.ty (fun j => y.ty.elem.signed (y.entry j).2) i)
  | _ => 0

/-- Arithmetic on entries. -/
def arithmetic : Arithmetic (Entry R) where
  literal text elem := if elem.isFloat then number (N.literal text) else (0, integerLiteral text)
  div elem a b := (N.div a.1 b.1, (elem.signed a.2).tdiv (elem.signed b.2))
  other := N.otherEntry

end Numbers

end Knok
