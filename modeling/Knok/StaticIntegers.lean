import Mathlib
import Knok.StaticCreation
import Knok.Control.Checked

/-!
# Static integer ranges

`arange` and `linspace` with an integer element type expand to an arithmetic
progression.  The length that `arange` computes is the number of terms that lie
in the half-open range from the start towards the stop; `linspace` exists when
its intervals divide the distance of its endpoints.

### Design decisions

* **Overflow.**  The code computes on `i128`, in the model `ℤ` with `wrapI128`.
  For parameters in the signed 64-bit range no operation wraps: every
  intermediate value is `FitsI128`.
* **Parameters.**  A parameter is any expression whose static scalar is the
  given integer; `arangeParams` and `parsePair` read them off the arguments.
-/

namespace Knok

open Control

/-- Bits of an integer element type. -/
def ElementType.intWidth : ElementType → Option ℕ
  | .i32 => some 32
  | .i64 => some 64
  | _ => none

/-- The value is a signed integer of the given width. -/
def FitsWidth (width : ℕ) (value : ℤ) : Prop := -2 ^ (width - 1) ≤ value ∧ value < 2 ^ (width - 1)

/-- The value is an `i128`. -/
def FitsI128 (value : ℤ) : Prop := FitsWidth 128 value

/-- The text of an integer element. -/
def integerText (value : ℤ) : Literal := .text (toString value)

theorem wrapI128_of_fits {value : ℤ} (h : FitsI128 value) : wrapI128 value = value := by
  obtain ⟨hlow, hhigh⟩ := h
  exact Int.bmod_eq_of_le_mul_two (by push_cast; omega) (by push_cast; omega)

/-- An integer element is printed exactly when it fits its type. -/
theorem integerLiteralForElem_eq_ok_iff {elem : ElementType} {width : ℕ}
    (hwidth : elem.intWidth = some width) {value : ℤ} {literal : Literal} :
    integerLiteralForElem value elem = .ok literal ↔
      FitsWidth width value ∧ literal = integerText value := by
  have hfits : ∀ (bound : ℤ) (message : String),
      ((if value < -bound ∨ bound - 1 < value then (.error (.msg message) : Except Error Literal)
        else .ok (.text (toString value))) = .ok literal ↔
          (-bound ≤ value ∧ value < bound) ∧ literal = integerText value) := by
    intro bound message
    split_ifs with hout
    · have hnot : ¬ (-bound ≤ value ∧ value < bound) := by omega
      simp [hnot]
    · have hin : -bound ≤ value ∧ value < bound := by omega
      simp [hin, integerText, eq_comm]
  cases elem with
  | i32 =>
      obtain rfl := Option.some.inj hwidth
      exact hfits (2 ^ 31) _
  | i64 =>
      obtain rfl := Option.some.inj hwidth
      exact hfits (2 ^ 63) _
  | _ => exact absurd hwidth nofun

/-- The elements of a list of integers. -/
theorem mapM_integerLiteralForElem_eq_ok_iff {elem : ElementType} {width : ℕ}
    (hwidth : elem.intWidth = some width) {values : List ℤ} {literals : List Literal} :
    values.mapM (integerLiteralForElem · elem) = .ok literals ↔
      (∀ value ∈ values, FitsWidth width value) ∧ literals = values.map integerText := by
  rw [except_mapM_eq_ok_iff]
  simp only [integerLiteralForElem_eq_ok_iff hwidth]
  rw [List.forall₂_and_left]
  have hmap : List.Forall₂ (fun value literal => literal = integerText value) values literals ↔
      literals = values.map integerText := by
    simp only [@eq_comm _ _ (integerText _)]
    rw [← List.forall₂_map_left_iff, List.forall₂_eq_eq_eq, eq_comm]
  rw [hmap]

/-! ## `arange` -/

/-- The value lies in the half-open range from the start towards the stop. -/
def InRangeTowards (start stop step value : ℤ) : Prop :=
  if 0 < step then start ≤ value ∧ value < stop else stop < value ∧ value ≤ start

/-- The terms of a progression that lie in its range. -/
def arangeTerms (start stop step : ℤ) : Set ℕ :=
  {k | InRangeTowards start stop step (start + step * k)}

/-- Up to a ceiling quotient. -/
theorem lt_ceilQuotient_iff {a b k : ℕ} (hb : 0 < b) : k < (a + b - 1) / b ↔ k * b < a := by
  rw [← Nat.ceilDiv_eq_add_pred_div, ← not_le, ceilDiv_le_iff_le_mul hb, not_le, mul_comm]

theorem mem_arangeTerms_iff {start stop step : ℤ} {k : ℕ} (hstep : step ≠ 0) :
    k ∈ arangeTerms start stop step ↔
      0 < step ∧ step * k < stop - start ∨ step < 0 ∧ stop - start < step * k := by
  unfold arangeTerms InRangeTowards
  rw [Set.mem_ofPred_eq]
  split_ifs with hpos
  · have hterm : 0 ≤ step * k := mul_nonneg hpos.le (Int.natCast_nonneg k)
    constructor
    · exact fun h => .inl ⟨hpos, by omega⟩
    · rintro (h | h)
      · omega
      · omega
  · have hneg : step < 0 := by omega
    have hterm : step * k ≤ 0 := mul_nonpos_of_nonpos_of_nonneg hneg.le (Int.natCast_nonneg k)
    constructor
    · exact fun h => .inr ⟨hneg, by omega⟩
    · rintro (h | h)
      · omega
      · omega

/-- **The length that `arange` computes counts the terms in range.** -/
theorem integerArangeLen_spec {start stop step : ℤ} (hstep : step ≠ 0)
    (hstart : FitsWidth 64 start) (hstop : FitsWidth 64 stop) :
    ∃ len, integerArangeLen start stop step = .ok len ∧
      ∀ k, k ∈ arangeTerms start stop step ↔ k < len := by
  obtain ⟨hstartLow, hstartHigh⟩ := hstart
  obtain ⟨hstopLow, hstopHigh⟩ := hstop
  norm_num at hstartLow hstartHigh hstopLow hstopHigh
  have hwrap : wrapI128 (stop - start) = stop - start :=
    wrapI128_of_fits ⟨by norm_num; omega, by norm_num; omega⟩
  have hnat : 0 < step.natAbs := Int.natAbs_pos.mpr hstep
  unfold integerArangeLen
  dsimp only
  rw [if_neg hstep, hwrap]
  split_ifs with hempty hlen
  · refine ⟨0, rfl, fun k => ?_⟩
    have hk := Int.natCast_nonneg k
    rw [mem_arangeTerms_iff hstep]
    constructor
    · rintro (⟨hpos, hlt⟩ | ⟨hneg, hlt⟩)
      · have := mul_nonneg hpos.le hk
        omega
      · have := mul_nonpos_of_nonpos_of_nonneg hneg.le hk
        omega
    · exact fun h => absurd h (Nat.not_lt_zero k)
  · refine ⟨_, rfl, fun k => ?_⟩
    rw [mem_arangeTerms_iff hstep, lt_ceilQuotient_iff hnat, ← Int.ofNat_lt, Int.natCast_mul,
      Int.natCast_natAbs, Int.natCast_natAbs, mul_comm (k : ℤ)]
    rcases lt_or_gt_of_ne hstep with hneg | hpos
    · have hdistance : stop - start < 0 := by omega
      rw [abs_of_neg hneg, abs_of_neg hdistance, neg_mul]
      omega
    · have hdistance : 0 < stop - start := by omega
      rw [abs_of_pos hpos, abs_of_pos hdistance]
      omega
  · refine absurd ?_ hlen
    have hle : ((stop - start).natAbs + step.natAbs - 1) / step.natAbs ≤ (stop - start).natAbs := by
      refine not_lt.mp fun hlt => ?_
      have := (lt_ceilQuotient_iff hnat).mp hlt
      exact absurd (Nat.le_mul_of_pos_right _ hnat) (not_le.mpr this)
    unfold usizeSize
    omega

/-- What `arange` makes of its arguments. -/
theorem arangeParams_lists (start stop step : Expr) {start' stop' step' : ℤ}
    (hstart : start.staticScalar = some (.int start')) (hstop : stop.staticScalar = some (.int stop'))
    (hstep : step.staticScalar = some (.int step')) :
    arangeParams [stop] = .ok (.int 0, .int stop', .int 1) ∧
      arangeParams [start, stop] = .ok (.int start', .int stop', .int 1) ∧
      arangeParams [start, stop, step] = .ok (.int start', .int stop', .int step') := by
  simp [arangeParams, parseNumericParams, numericParam, hstart, hstop, hstep, failIf, bind,
    Except.bind, pure, Except.pure]

theorem requireInt_int (value : ℤ) (message : String) :
    requireInt (.int value) message = .ok value := rfl

theorem integerProgression_eq_map (start step : ℤ) (len : ℕ) :
    integerProgression start step len =
      (List.range len).map fun k : ℕ => wrapI128 (start + wrapI128 (step * k)) := by
  have hindices : (do let index ← List.range len; pure (index : ℤ)) =
      (List.range len).map fun index : ℕ => (index : ℤ) := List.map_eq_flatMap.symm
  rw [integerProgression, hindices, List.map_map]
  rfl

/-- The elements of a progression whose terms do not overflow. -/
theorem mapM_integerProgression_eq_ok_iff {elem : ElementType} {width : ℕ}
    (hwidth : elem.intWidth = some width) {start step : ℤ} {len : ℕ} {literals : List Literal}
    (h : ∀ k < len, FitsI128 (step * k) ∧ FitsI128 (start + step * k)) :
    (integerProgression start step len).mapM (integerLiteralForElem · elem) = .ok literals ↔
      (∀ k < len, FitsWidth width (start + step * k)) ∧
        literals = (List.range len).map fun k : ℕ => integerText (start + step * k) := by
  have hvalues : integerProgression start step len =
      (List.range len).map fun k : ℕ => start + step * k := by
    rw [integerProgression_eq_map]
    refine List.map_congr_left fun k hk => ?_
    obtain ⟨hterm, hvalue⟩ := h k (List.mem_range.mp hk)
    rw [wrapI128_of_fits hterm, wrapI128_of_fits hvalue]
  rw [mapM_integerLiteralForElem_eq_ok_iff hwidth, hvalues]
  simp only [List.forall_mem_map, List.mem_range, List.map_map, Function.comp_def]

/-- A term between two 64-bit values, and its distance from the first. -/
theorem fitsI128_term {start stop term : ℤ} (hstart : FitsWidth 64 start)
    (hstop : FitsWidth 64 stop)
    (h : start ≤ start + term ∧ start + term ≤ stop ∨ stop ≤ start + term ∧ start + term ≤ start) :
    FitsI128 term ∧ FitsI128 (start + term) := by
  obtain ⟨hstartLow, hstartHigh⟩ := hstart
  obtain ⟨hstopLow, hstopHigh⟩ := hstop
  norm_num at hstartLow hstartHigh hstopLow hstopHigh
  unfold FitsI128 FitsWidth
  norm_num
  omega

/-- A term in range does not overflow. -/
theorem fitsI128_of_mem_arangeTerms {start stop step : ℤ} (hstart : FitsWidth 64 start)
    (hstop : FitsWidth 64 stop) {k : ℕ} (hk : k ∈ arangeTerms start stop step) :
    FitsI128 (step * k) ∧ FitsI128 (start + step * k) := by
  refine fitsI128_term hstart hstop ?_
  unfold arangeTerms InRangeTowards at hk
  rw [Set.mem_ofPred_eq] at hk
  split_ifs at hk <;> omega

/-- An integer element type is numeric. -/
theorem validateStaticVectorTarget_int {elem : ElementType} {width : ℕ}
    (hwidth : elem.intWidth = some width) (len : ℕ) (opName : String) :
    validateStaticVectorTarget ⟨elem, [len]⟩ opName = .ok () := by
  cases elem with
  | i32 | i64 => rfl
  | _ => exact absurd hwidth nofun

theorem eq_i32_or_i64 {elem : ElementType} {width : ℕ} (hwidth : elem.intWidth = some width) :
    elem = .i32 ∨ elem = .i64 := by
  cases elem with
  | i32 | i64 => simp
  | _ => exact absurd hwidth nofun

/-- An integer `arange` is a progression of the length that its parameters give. -/
theorem staticArangeLiterals_int_iff {elem : ElementType} {width : ℕ}
    (hwidth : elem.intWidth = some width) {args : List Expr} {start stop step : ℤ} {len : ℕ}
    (hargs : arangeParams args = .ok (.int start, .int stop, .int step))
    {literals : List Literal} :
    staticArangeLiterals ⟨elem, [len]⟩ args = .ok literals ↔
      integerArangeLen start stop step = .ok len ∧
        (integerProgression start step len).mapM (integerLiteralForElem · elem) =
          .ok literals := by
  unfold staticArangeLiterals
  rw [validateStaticVectorTarget_int hwidth, hargs]
  rcases eq_i32_or_i64 hwidth with rfl | rfl
  all_goals
    simp only [requireInt_int, TensorType.dim, List.getD_cons_zero, except_bind_eq_ok_iff,
      Except.ok.injEq, exists_eq_left', failIf_eq_ok_iff, bne_eq_false_iff_eq, exists_const]
    constructor
    · rintro ⟨-, expected, hlen, rfl, hvalues⟩
      exact ⟨hlen, hvalues⟩
    · rintro ⟨hlen, hvalues⟩
      exact ⟨trivial, len, hlen, rfl, hvalues⟩

/-- **When `arange` succeeds, and what it returns.** -/
theorem staticArangeLiterals_eq_ok_iff {elem : ElementType} {width : ℕ}
    (hwidth : elem.intWidth = some width) {args : List Expr} {start stop step : ℤ} {len : ℕ}
    (hargs : arangeParams args = .ok (.int start, .int stop, .int step))
    (hstart : FitsWidth 64 start) (hstop : FitsWidth 64 stop) {literals : List Literal} :
    staticArangeLiterals ⟨elem, [len]⟩ args = .ok literals ↔
      step ≠ 0 ∧ (∀ k, k ∈ arangeTerms start stop step ↔ k < len) ∧
        (∀ k < len, FitsWidth width (start + step * k)) ∧
        literals = (List.range len).map fun k : ℕ => integerText (start + step * k) := by
  rw [staticArangeLiterals_int_iff hwidth hargs]
  constructor
  · rintro ⟨hlen, hliterals⟩
    have hstep : step ≠ 0 := by
      rintro rfl
      cases hlen
    obtain ⟨len', hlen', hterms⟩ := integerArangeLen_spec hstep hstart hstop
    obtain rfl := Except.ok.inj (hlen.symm.trans hlen')
    have hfits : ∀ k < len, FitsI128 (step * k) ∧ FitsI128 (start + step * k) := fun k hk =>
      fitsI128_of_mem_arangeTerms hstart hstop ((hterms k).mpr hk)
    exact ⟨hstep, hterms, (mapM_integerProgression_eq_ok_iff hwidth hfits).mp hliterals⟩
  · rintro ⟨hstep, hterms, hliterals⟩
    obtain ⟨len', hlen', hterms'⟩ := integerArangeLen_spec hstep hstart hstop
    have hsame : len' = len := by
      refine Nat.le_antisymm ?_ ?_
      · exact not_lt.mp fun h => absurd ((hterms len).mp ((hterms' len).mpr h)) (lt_irrefl _)
      · exact not_lt.mp fun h => absurd ((hterms' len').mp ((hterms len').mpr h)) (lt_irrefl _)
    subst hsame
    have hfits : ∀ k < len', FitsI128 (step * k) ∧ FitsI128 (start + step * k) := fun k hk =>
      fitsI128_of_mem_arangeTerms hstart hstop ((hterms k).mpr hk)
    exact ⟨hlen', (mapM_integerProgression_eq_ok_iff hwidth hfits).mpr hliterals⟩

/-! ### The coordinates of an axis -/

/-- A digit sequence has the value of its digits. -/
theorem parseDigits_eq_ofDigitChars {digits : List Char} (h : ∀ c ∈ digits, c.isDigit = true)
    (acc : ℕ) : parseDigits acc digits = some (Nat.ofDigitChars 10 digits acc) := by
  induction digits generalizing acc with
  | nil => rw [parseDigits, Nat.ofDigitChars_nil]
  | cons c digits ih =>
      rw [parseDigits, if_pos (h c (List.mem_cons_self ..)),
        ih fun d hd => h d (List.mem_cons_of_mem _ hd), Nat.ofDigitChars_cons, Nat.mul_comm]
      rfl

/-- A printed count is read back, if it is an `i128`. -/
theorem parseI128_toString (n : ℕ) :
    parseI128 (toString n) = if n < 2 ^ 127 then some (n : ℤ) else none := by
  have hlist : (toString n).toList = Nat.toDigits 10 n := Nat.toList_repr
  have hdigits : ∀ c ∈ Nat.toDigits 10 n, c.isDigit = true := fun c hc =>
    Nat.isDigit_of_mem_toDigits (by omega) (by omega) hc
  have hsign : splitSign (Nat.toDigits 10 n) = (false, Nat.toDigits 10 n) := by
    unfold splitSign
    split
    · exact absurd (hdigits '-' (by simp [*])) (by decide)
    · exact absurd (hdigits '+' (by simp [*])) (by decide)
    · rfl
  have hne : (Nat.toDigits 10 n).isEmpty = false := by
    rw [List.isEmpty_eq_false_iff]
    exact List.ne_nil_of_length_pos Nat.length_toDigits_pos
  unfold parseI128
  rw [hlist, hsign]
  dsimp only
  rw [hne, parseDigits_eq_ofDigitChars hdigits, Nat.ofDigitChars_ten_toDigits]
  rw [if_neg Bool.false_ne_true, Option.bind_some, if_neg Bool.false_ne_true]
  by_cases h : n < 2 ^ 127
  · rw [if_pos h, if_pos ⟨by omega, by exact_mod_cast h⟩]
  · rw [if_neg h, if_neg]
    rintro ⟨-, hlt⟩
    exact h (by exact_mod_cast hlt)

/-- The number of coordinates of an axis. -/
theorem integerArangeLen_coordinates {dim : ℕ} (h : dim < 2 ^ 64) :
    integerArangeLen 0 dim 1 = .ok dim := by
  have hwrap : wrapI128 ((dim : ℤ) - 0) = dim := by
    rw [sub_zero]
    exact wrapI128_of_fits ⟨by norm_num, by norm_num; omega⟩
  unfold integerArangeLen
  dsimp only
  rw [if_neg one_ne_zero, hwrap]
  split_ifs with hempty hlen
  · rw [show dim = 0 by omega]
  · simp
  · exact absurd h (by simpa [usizeSize] using hlen)

/-- **When the coordinates of an axis are an `arange`**: they fit the element
type. -/
theorem staticArange_coordinates_iff {elem : ElementType} {width : ℕ}
    (hwidth : elem.intWidth = some width) (dim : ℕ) :
    validateStaticCreationCall (.arange ⟨elem, [dim]⟩)
      [.const "0" elem, .const (toString dim) elem] = .ok () ↔ dim ≤ 2 ^ (width - 1) := by
  have hbound : 0 < 2 ^ (width - 1) ∧ 2 ^ (width - 1) ≤ 2 ^ 63 := by
    rcases eq_i32_or_i64 hwidth with rfl | rfl <;> cases hwidth <;> norm_num
  have hscalar : ∀ n : ℕ, (Expr.const (toString n) elem).staticScalar =
      (if n < 2 ^ 127 then some (n : ℤ) else none).map .int := by
    intro n
    rw [← parseI128_toString]
    rcases eq_i32_or_i64 hwidth with rfl | rfl <;> rfl
  have hvalid : validateStaticCreationCall (.arange ⟨elem, [dim]⟩)
      [.const "0" elem, .const (toString dim) elem] = .ok () ↔
      ∃ literals, staticArangeLiterals ⟨elem, [dim]⟩
        [.const "0" elem, .const (toString dim) elem] = .ok literals := by
    simp only [validateStaticCreationCall, except_bind_eq_ok_iff, exists_and_right]
    exact and_iff_left rfl
  have hzero : (Expr.const "0" elem).staticScalar = some (.int 0) := by
    rcases eq_i32_or_i64 hwidth with rfl | rfl <;> rfl
  have hhalf : FitsI128 ((2 ^ (width - 1) : ℕ) : ℤ) :=
    ⟨by omega, by push_cast; exact_mod_cast hbound.2.trans_lt (by norm_num)⟩
  rw [hvalid]
  by_cases hdim : dim < 2 ^ 127
  · have hstop := hscalar dim
    rw [if_pos hdim] at hstop
    have hargs := (arangeParams_lists _ _ _ hzero hstop hzero).2.1
    constructor
    · rintro ⟨literals, h⟩
      obtain ⟨-, hvalues⟩ := (staticArangeLiterals_int_iff hwidth hargs).mp h
      have hfits := ((mapM_integerLiteralForElem_eq_ok_iff hwidth).mp hvalues).1
      -- the first coordinate that does not fit
      by_contra hlarge
      have hterm : ((2 ^ (width - 1) : ℕ) : ℤ) ∈ integerProgression 0 1 dim := by
        rw [integerProgression_eq_map, List.mem_map]
        refine ⟨2 ^ (width - 1), List.mem_range.mpr (by omega), ?_⟩
        rw [one_mul, wrapI128_of_fits hhalf, zero_add, wrapI128_of_fits hhalf]
      have hless := (hfits _ hterm).2
      push_cast at hless
      exact lt_irrefl _ hless
    · intro hfits
      have hk : ∀ k < dim, FitsI128 (1 * (k : ℤ)) ∧ FitsI128 (0 + 1 * (k : ℤ)) := by
        intro k hk
        rw [one_mul, zero_add, and_self]
        exact ⟨by norm_num, lt_trans (by exact_mod_cast hk.trans_le hfits) hhalf.2⟩
      refine ⟨_, (staticArangeLiterals_int_iff hwidth hargs).mpr
        ⟨integerArangeLen_coordinates (by omega),
          (mapM_integerProgression_eq_ok_iff hwidth hk).mpr ⟨fun k hk => ?_, rfl⟩⟩⟩
      rw [one_mul, zero_add]
      have hlow : (0 : ℤ) < 2 ^ (width - 1) := by positivity
      exact ⟨by omega, by exact_mod_cast hk.trans_le hfits⟩
  · have hstop := hscalar dim
    rw [if_neg hdim] at hstop
    refine iff_of_false ?_ (by omega)
    rintro ⟨literals, h⟩
    unfold staticArangeLiterals at h
    simp only [except_bind_eq_ok_iff] at h
    obtain ⟨-, -, params, hparams, -⟩ := h
    generalize Expr.const (toString dim) elem = stop at hstop hparams
    generalize Expr.const "0" elem = start at hzero hparams
    simp [arangeParams, parseNumericParams, numericParam, failIf, bind, Except.bind, hzero,
      hstop] at hparams

/-- Being the number of terms in range. -/
theorem eq_ncard_arangeTerms_iff {start stop step : ℤ} (hstep : step ≠ 0)
    (hstart : FitsWidth 64 start) (hstop : FitsWidth 64 stop) {len : ℕ} :
    len = (arangeTerms start stop step).ncard ↔
      ∀ k, k ∈ arangeTerms start stop step ↔ k < len := by
  have hcount : ∀ count, (∀ k, k ∈ arangeTerms start stop step ↔ k < count) →
      (arangeTerms start stop step).ncard = count := by
    intro count hterms
    have hset : arangeTerms start stop step = ↑(Finset.range count) := by
      ext k
      rw [hterms k, Finset.mem_coe, Finset.mem_range]
    rw [hset, Set.ncard_coe_finset, Finset.card_range]
  constructor
  · rintro rfl
    obtain ⟨count, -, hterms⟩ := integerArangeLen_spec hstep hstart hstop
    rw [hcount count hterms]
    exact hterms
  · exact fun h => (hcount len h).symm

/-! ## `linspace` -/

/-- **When `linspace` succeeds, and what it returns.** -/
theorem staticLinspaceLiterals_eq_ok_iff {elem : ElementType} {width : ℕ}
    (hwidth : elem.intWidth = some width) {args : List Expr} {start stop : ℤ} {len : ℕ}
    (hargs : parsePair "linspace" args = .ok (.int start, .int stop)) (hlen : 2 ≤ len)
    (hstart : FitsWidth 64 start) (hstop : FitsWidth 64 stop) {literals : List Literal} :
    staticLinspaceLiterals ⟨elem, [len]⟩ args = .ok literals ↔
      ∃ spacing : ℤ, stop - start = spacing * (len - 1) ∧
        (∀ k < len, FitsWidth width (start + spacing * k)) ∧
        literals = (List.range len).map fun k : ℕ => integerText (start + spacing * k) := by
  have hcode : staticLinspaceLiterals ⟨elem, [len]⟩ args = .ok literals ↔
      ∃ values, integerLinspaceValues start stop len = .ok values ∧
        values.mapM (integerLiteralForElem · elem) = .ok literals := by
    unfold staticLinspaceLiterals
    rw [validateStaticVectorTarget_int hwidth, hargs]
    rcases eq_i32_or_i64 hwidth with rfl | rfl
    all_goals
      simp only [requireInt_int, TensorType.dim, List.getD_cons_zero, except_bind_eq_ok_iff,
        Except.ok.injEq, exists_eq_left', exists_const, true_and]
  obtain ⟨intervals, hintervals⟩ : ∃ intervals : ℕ, len = intervals + 2 := ⟨len - 2, by omega⟩
  have hlast : (len : ℤ) - 1 = (intervals + 1 : ℕ) := by omega
  have hpos : (0 : ℤ) < len - 1 := by omega
  have hwrap : wrapI128 (stop - start) = stop - start := by
    obtain ⟨hstartLow, hstartHigh⟩ := hstart
    obtain ⟨hstopLow, hstopHigh⟩ := hstop
    norm_num at hstartLow hstartHigh hstopLow hstopHigh
    exact wrapI128_of_fits ⟨by norm_num; omega, by norm_num; omega⟩
  have hvalues : ∀ values, integerLinspaceValues start stop len = .ok values ↔
      ∃ spacing : ℤ, stop - start = spacing * (len - 1) ∧
        values = integerProgression start spacing len := by
    intro values
    subst hintervals
    simp only [integerLinspaceValues, hwrap]
    split_ifs with hrem
    · simp only [false_iff]
      rintro ⟨spacing, hspacing, -⟩
      exact hrem (Int.tmod_eq_zero_of_dvd ⟨spacing, by rw [hspacing, mul_comm]⟩)
    · have hdvd := Int.dvd_of_tmod_eq_zero (not_not.mp hrem)
      have hdiv := Int.tdiv_mul_cancel hdvd
      constructor
      · intro h
        exact ⟨_, hdiv.symm, (Except.ok.inj h).symm⟩
      · rintro ⟨spacing, hspacing, rfl⟩
        have hsame : (stop - start).tdiv (↑(intervals + 2) - 1) = spacing :=
          mul_right_cancel₀ hpos.ne' (hdiv.trans hspacing)
        rw [hsame]
  have hfits : ∀ spacing : ℤ, stop - start = spacing * (len - 1) →
      ∀ k < len, FitsI128 (spacing * k) ∧ FitsI128 (start + spacing * k) := by
    intro spacing hspacing k hk
    have hk' : (k : ℤ) ≤ len - 1 := by omega
    refine fitsI128_term hstart hstop ?_
    rcases le_total 0 spacing with hup | hdown
    · have hterm := mul_nonneg hup (Int.natCast_nonneg k)
      have hterm' := mul_le_mul_of_nonneg_left hk' hup
      omega
    · have hterm := mul_nonpos_of_nonpos_of_nonneg hdown (Int.natCast_nonneg k)
      have hterm' := mul_le_mul_of_nonpos_left hk' hdown
      omega
  rw [hcode]
  constructor
  · rintro ⟨values, h, hliterals⟩
    obtain ⟨spacing, hspacing, rfl⟩ := (hvalues values).mp h
    exact ⟨spacing, hspacing,
      (mapM_integerProgression_eq_ok_iff hwidth (hfits spacing hspacing)).mp hliterals⟩
  · rintro ⟨spacing, hspacing, hliterals⟩
    exact ⟨_, (hvalues _).mpr ⟨spacing, hspacing, rfl⟩,
      (mapM_integerProgression_eq_ok_iff hwidth (hfits spacing hspacing)).mpr hliterals⟩

/-! ## Exactness -/

/-- **Static integer ranges are exact.**  `arange` succeeds when the step is not
zero, the declared length is the number of terms in range and every term fits the
element type; its elements are then those terms, the next term is out of range,
and no `i128` operation overflows.  `linspace` with at least two elements succeeds
when the intervals divide the distance and every element fits; it then runs from
endpoint to endpoint in equal steps. -/
theorem staticIntegers_exact {elem : ElementType} {width : ℕ}
    (hwidth : elem.intWidth = some width) {start stop step : ℤ} (hstart : FitsWidth 64 start)
    (hstop : FitsWidth 64 stop) (len : ℕ) :
    (∀ args, arangeParams args = .ok (.int start, .int stop, .int step) →
      ((∃ literals, staticArangeLiterals ⟨elem, [len]⟩ args = .ok literals) ↔
        step ≠ 0 ∧ len = (arangeTerms start stop step).ncard ∧
          ∀ k < len, FitsWidth width (start + step * k)) ∧
      (∀ literals, staticArangeLiterals ⟨elem, [len]⟩ args = .ok literals →
        literals = (List.range len).map (fun k : ℕ => integerText (start + step * k)) ∧
        (∀ k < len, InRangeTowards start stop step (start + step * k)) ∧
        ¬ InRangeTowards start stop step (start + step * len)) ∧
      FitsI128 (stop - start) ∧
      (step ≠ 0 → len = (arangeTerms start stop step).ncard →
        ∀ k < len, FitsI128 (step * k) ∧ FitsI128 (start + step * k))) ∧
    (2 ≤ len → ∀ args, parsePair "linspace" args = .ok (.int start, .int stop) →
      ((∃ literals, staticLinspaceLiterals ⟨elem, [len]⟩ args = .ok literals) ↔
        (len - 1 : ℤ) ∣ stop - start ∧
          ∀ k < len, FitsWidth width (start + (stop - start) / (len - 1) * k)) ∧
      ∀ literals, staticLinspaceLiterals ⟨elem, [len]⟩ args = .ok literals →
        ∃ spacing : ℤ, start + spacing * (len - 1) = stop ∧
          literals = (List.range len).map fun k : ℕ => integerText (start + spacing * k)) := by
  refine ⟨fun args hargs => ⟨?_, ?_, ?_, ?_⟩, fun hlen args hargs => ⟨?_, ?_⟩⟩
  · simp only [staticArangeLiterals_eq_ok_iff hwidth hargs hstart hstop]
    constructor
    · rintro ⟨literals, hstep, hterms, hfits, -⟩
      exact ⟨hstep, (eq_ncard_arangeTerms_iff hstep hstart hstop).mpr hterms, hfits⟩
    · rintro ⟨hstep, hcount, hfits⟩
      exact ⟨_, hstep, (eq_ncard_arangeTerms_iff hstep hstart hstop).mp hcount, hfits, rfl⟩
  · intro literals h
    obtain ⟨-, hterms, -, hliterals⟩ :=
      (staticArangeLiterals_eq_ok_iff hwidth hargs hstart hstop).mp h
    exact ⟨hliterals, fun k hk => (hterms k).mpr hk,
      fun hnext => absurd ((hterms len).mp hnext) (lt_irrefl _)⟩
  · obtain ⟨hstartLow, hstartHigh⟩ := hstart
    obtain ⟨hstopLow, hstopHigh⟩ := hstop
    norm_num at hstartLow hstartHigh hstopLow hstopHigh
    exact ⟨by norm_num; omega, by norm_num; omega⟩
  · intro hstep hcount k hk
    have hterms := (eq_ncard_arangeTerms_iff hstep hstart hstop).mp hcount
    exact fitsI128_of_mem_arangeTerms hstart hstop ((hterms k).mpr hk)
  · have hpos : (len - 1 : ℤ) ≠ 0 := by omega
    simp only [staticLinspaceLiterals_eq_ok_iff hwidth hargs hlen hstart hstop]
    constructor
    · rintro ⟨literals, spacing, hspacing, hfits, -⟩
      refine ⟨⟨spacing, by rw [hspacing, mul_comm]⟩, ?_⟩
      rw [hspacing, Int.mul_ediv_cancel _ hpos]
      exact hfits
    · rintro ⟨hdvd, hfits⟩
      exact ⟨_, _, (Int.ediv_mul_cancel hdvd).symm, hfits, rfl⟩
  · intro literals h
    obtain ⟨spacing, hspacing, -, hliterals⟩ :=
      (staticLinspaceLiterals_eq_ok_iff hwidth hargs hlen hstart hstop).mp h
    exact ⟨spacing, by rw [← hspacing, add_sub_cancel], hliterals⟩

theorem staticIntegers_exact_countdown :
    ([integerText 10, integerText 7, integerText 4, integerText 1] =
        ([0, 1, 2, 3] : List ℕ).map (fun k => integerText (10 + -3 * k)) ∧
      ¬ InRangeTowards 10 0 (-3) (10 + -3 * 4)) ∧
    ∃ spacing : ℤ, 10 + spacing * (((6 : ℕ) : ℤ) - 1) = 0 ∧
      [integerText 10, integerText 8, integerText 6, integerText 4, integerText 2, integerText 0] =
        (List.range 6).map fun k : ℕ => integerText (10 + spacing * k) :=
  have h := fun len => @staticIntegers_exact .i32 32 rfl 10 0 (-3)
    ⟨by norm_num, by norm_num⟩ ⟨by norm_num, by norm_num⟩ len
  have harange := ((h 4).1 [.const "10" .i32, .const "0" .i32, .unary .neg (.const "3" .i32)]
    (arangeParams_lists _ _ _ rfl rfl rfl).2.2).2.1 [integerText 10, integerText 7, integerText 4, integerText 1] rfl
  ⟨⟨harange.1, harange.2.2⟩, ((h 6).2 (by norm_num) [.const "10" .i32, .const "0" .i32] rfl).2
    [integerText 10, integerText 8, integerText 6, integerText 4, integerText 2, integerText 0] rfl⟩

end Knok
