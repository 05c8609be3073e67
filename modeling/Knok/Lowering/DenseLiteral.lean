import Mathlib
import Knok.Ops
import Knok.NestedLiteral
import Knok.Control.Checked

/-!
# Dense constants

A constant tensor is emitted as the text of a nested list.  The operation that it
becomes has the declared type, but the text is parsed by itself and its shape is
inferred from its nesting.

### Design decisions

* **Panics.**  A slice of the values out of range is an error, as every other
  failure.
-/

namespace Knok.Lowering

open Control NestedLiteral

/-! ## The code -/

/-- `values[start..end]`. -/
def sliceValues (values : List String) (start stop : ℕ) : Except Error (List String) :=
  if start ≤ stop ∧ stop ≤ values.length then .ok ((values.take stop).drop start)
  else .error (.msg s!"range end index {stop} out of range for slice of length {values.length}")

/-- `nested_dense_literal`. -/
def nestedDenseLiteral : List String → List ℕ → Except Error String
  | value :: _, [] => .ok value
  | [], [] => .error (.msg "scalar dense literal has one value")
  | values, dim :: shape =>
      if dim = 0 then .ok "[]"
      else do
        let chunkLen := usizeProduct shape
        let items ← (List.range dim).mapM fun index =>
          if chunkLen = 0 then nestedDenseLiteral [] shape
          else do
            let start := usizeMul index chunkLen
            let chunk ← sliceValues values start (usizeAdd start chunkLen)
            nestedDenseLiteral chunk shape
        return "[" ++ ", ".intercalate items ++ "]"

/-- The literal that `dense_constant` emits; a tensor of rank zero is its only
value. -/
def denseConstant (ty : TensorType) (values : List String) : Except Error String :=
  if ty.rank = 0 then
    match values with
    | value :: _ => .ok value
    | [] => .error (.msg "rank-0 dense constant requires one value")
  else do
    let expectedLen := usizeProduct ty.shape
    failIf (values.length != expectedLen)
      s!"dense constant for {ty.debug} expected {expectedLen} values, got {values.length}"
    nestedDenseLiteral values ty.shape

/-! ## Printing and parsing -/

/-- The shape that can be read off the printed literal: behind an axis without
entries nothing is printed. -/
def visibleShape : List ℕ → List ℕ
  | [] => []
  | dim :: shape => if dim = 0 then [0] else dim :: visibleShape shape

theorem visibleShape_eq_self_iff {shape : List ℕ} :
    visibleShape shape = shape ↔ 0 ∉ shape.dropLast := by
  induction shape with
  | nil => simp [visibleShape]
  | cons dim shape ih =>
      rcases List.eq_nil_or_concat' shape with rfl | ⟨init, last, rfl⟩
      · by_cases hdim : dim = 0 <;> simp [visibleShape, hdim]
      · rw [List.dropLast_cons_of_ne_nil (by simp), List.mem_cons, visibleShape, not_or, ← ih]
        by_cases hdim : dim = 0
        · simp [hdim]
        · simp [hdim, Ne.symm hdim]

/-- The values of one entry along the first axis. -/
def chunk (values : List String) (len index : ℕ) : List String :=
  (values.drop (index * len)).take len

/-- The chunks are the values. -/
theorem flatMap_chunk (values : List String) (len count : ℕ) :
    (List.range count).flatMap (chunk values len) = values.take (count * len) := by
  induction count with
  | zero => simp
  | succ count ih =>
      rw [List.range_succ, List.flatMap_append, ih, List.flatMap_singleton, chunk,
        ← List.take_add, Nat.succ_mul]

/-- The text starts an element. -/
def Opens (text : List Char) : Prop :=
  text.head? ≠ some ']' ∧ text.head? ≠ some ' ' ∧ text ≠ []

theorem opens_scalar {text : String} (h : IsScalarText text) : Opens text.toList := by
  obtain ⟨hne, hchars⟩ := h
  have hnil : text.toList ≠ [] := fun h => hne (String.toList_eq_nil_iff.mp h)
  obtain ⟨c, word, hword⟩ := List.exists_cons_of_ne_nil hnil
  have hc := hchars c (by rw [hword]; exact List.mem_cons_self)
  refine ⟨fun h => ?_, fun h => ?_, hnil⟩
  · rw [hword, List.head?_cons] at h
    rw [Option.some.inj h] at hc
    exact absurd hc (by decide)
  · rw [hword, List.head?_cons] at h
    rw [Option.some.inj h] at hc
    exact absurd hc (by decide)

/-- A list printed element by element. -/
theorem toList_bracketed (first : String) (items : List String) :
    ("[" ++ ", ".intercalate (first :: items) ++ "]").toList =
      '[' :: first.toList ++ items.flatMap (fun item => ',' :: ' ' :: item.toList) ++ [']'] := by
  have hrest : ∀ (first : List Char) (items : List (List Char)),
      [',', ' '].intercalate (first :: items) =
        first ++ items.flatMap fun item => ',' :: ' ' :: item := by
    intro first items
    induction items generalizing first with
    | nil => simp
    | cons item items ih =>
        rw [List.intercalate_cons_cons, ih]
        simp
  have hsep : ", ".toList = [',', ' '] := rfl
  rw [String.toList_append, String.toList_append, String.toList_intercalate, List.map_cons, hsep,
    hrest, List.flatMap_map]
  rfl

/-- The elements of a list, printed one by one, are parsed together. -/
theorem parses_bracketed {text : ℕ → String} {part : ℕ → List String} {dims : List ℕ} {count : ℕ}
    (hopens : Opens (text 0).toList)
    (hparses : ∀ index < count + 1, Parses (text index).toList dims (part index)) :
    Opens ("[" ++ ", ".intercalate ((List.range (count + 1)).map text) ++ "]").toList ∧
      Parses ("[" ++ ", ".intercalate ((List.range (count + 1)).map text) ++ "]").toList
        ((count + 1) :: dims) ((List.range (count + 1)).flatMap part) := by
  have hitems : ∀ item ∈ (List.range count).map fun index =>
      ((text (index + 1)).toList, part (index + 1)), Parses item.1 dims item.2 := by
    intro item hitem
    obtain ⟨index, hindex, rfl⟩ := List.mem_map.mp hitem
    exact hparses (index + 1) (Nat.succ_lt_succ (List.mem_range.mp hindex))
  have hlist := @parses_list dims ((text 0).toList, part 0) _
    (hparses 0 (Nat.succ_pos count)) hopens hitems
  rw [List.range_succ_eq_map, List.map_cons, List.flatMap_cons, toList_bracketed]
  refine ⟨⟨nofun, nofun, nofun⟩, ?_⟩
  rw [List.length_map, List.length_range] at hlist
  simpa only [printRest, List.flatMap_map, List.map_map, Function.comp_def] using hlist

section Chunks

variable {values : List String} {dim : ℕ} {shape : List ℕ}

/-- A chunk is a slice of the values. -/
theorem chunk_end_le (hlen : values.length = dim * shape.prod) {index : ℕ} (hindex : index < dim) :
    index * shape.prod + shape.prod ≤ values.length := by
  rw [hlen, ← Nat.succ_mul]
  exact Nat.mul_le_mul_right _ hindex

theorem length_chunk (hlen : values.length = dim * shape.prod) {index : ℕ} (hindex : index < dim) :
    (chunk values shape.prod index).length = shape.prod := by
  have hle := chunk_end_le hlen hindex
  rw [chunk, List.length_take, List.length_drop]
  omega

/-- One round of the loop prints one chunk. -/
theorem printChunk_eq (hlen : values.length = dim * shape.prod) (hfits : values.length < 2 ^ 64)
    {index : ℕ} (hindex : index < dim) :
    (if usizeProduct shape = 0 then nestedDenseLiteral [] shape
      else do
        let start := usizeMul index (usizeProduct shape)
        let part ← sliceValues values start (usizeAdd start (usizeProduct shape))
        nestedDenseLiteral part shape) = nestedDenseLiteral (chunk values shape.prod index) shape := by
  have hle := chunk_end_le hlen hindex
  have hcount : usizeProduct shape = shape.prod := by
    rw [usizeProduct_eq]
    exact Nat.mod_eq_of_lt (by omega)
  rw [hcount]
  split_ifs with hzero
  · rw [chunk, hzero, List.take_zero]
  · have hmul : usizeMul index shape.prod = index * shape.prod := usizeMul_of_lt (by omega)
    have hadd : usizeAdd (index * shape.prod) shape.prod = index * shape.prod + shape.prod :=
      usizeAdd_of_lt (by omega)
    have hslice : sliceValues values (index * shape.prod)
        (index * shape.prod + shape.prod) = .ok (chunk values shape.prod index) := by
      rw [sliceValues, if_pos ⟨Nat.le_add_right _ _, hle⟩, List.drop_take,
        Nat.add_sub_cancel_left, chunk]
    dsimp only
    rw [hmul, hadd, hslice]
    rfl

end Chunks

/-- **What is printed is parsed**, with the visible shape. -/
theorem nestedDenseLiteral_parses (shape : List ℕ) :
    ∀ values : List String, values.length = shape.prod → values.length < 2 ^ 64 →
      (∀ value ∈ values, IsScalarText value) →
      ∃ text, nestedDenseLiteral values shape = .ok text ∧ Opens text.toList ∧
        Parses text.toList (visibleShape shape) values := by
  induction shape with
  | nil =>
      intro values hlen _ htexts
      obtain ⟨value, rfl⟩ := List.length_eq_one_iff.mp hlen
      have hvalue := htexts value List.mem_cons_self
      exact ⟨value, rfl, opens_scalar hvalue, parses_scalar hvalue⟩
  | cons dim shape ih =>
      intro values hlen hfits htexts
      rw [List.prod_cons] at hlen
      cases dim with
      | zero =>
          obtain rfl : values = [] := List.eq_nil_of_length_eq_zero (by rw [hlen, Nat.zero_mul])
          exact ⟨"[]", rfl, by unfold Opens; decide, parses_empty⟩
      | succ dim =>
          have hitem : ∀ index < dim + 1, ∃ text,
              nestedDenseLiteral (chunk values shape.prod index) shape = .ok text ∧
                Opens text.toList ∧
                Parses text.toList (visibleShape shape) (chunk values shape.prod index) := by
            intro index hindex
            have hchunk := length_chunk hlen hindex
            have hle := chunk_end_le hlen hindex
            refine ih _ hchunk (by omega) fun value hvalue => htexts value ?_
            exact List.mem_of_mem_drop (List.mem_of_mem_take hvalue)
          choose! text hcode hopens hparses using hitem
          have hbracketed := parses_bracketed (hopens 0 (Nat.succ_pos dim)) hparses
          rw [flatMap_chunk, ← hlen, List.take_length] at hbracketed
          refine ⟨"[" ++ ", ".intercalate ((List.range (dim + 1)).map text) ++ "]", ?_,
            hbracketed.1, ?_⟩
          · have hitems := except_mapM_of_forall fun index hindex =>
              (printChunk_eq hlen hfits (List.mem_range.mp hindex)).trans
                (hcode index (List.mem_range.mp hindex))
            rw [nestedDenseLiteral, if_neg (Nat.succ_ne_zero dim)]
            dsimp only
            rw [hitems]
            rfl
          · rw [visibleShape, if_neg (Nat.succ_ne_zero dim)]
            exact hbracketed.2

/-- The literal of a constant is parsed as a tensor of its type with its values. -/
def DenseRoundTrips (ty : TensorType) (values : List String) : Prop :=
  ∃ literal, denseConstant ty values = .ok literal ∧ parse literal = some (ty.shape, values)

/-- **Dense literals round-trip**, unless an axis without entries hides another
axis. -/
theorem denseRoundTrips_iff (ty : TensorType) (values : List String) (hrank : ty.rank ≠ 0)
    (hlen : values.length = ty.shape.prod) (hfits : values.length < 2 ^ 64)
    (htexts : ∀ value ∈ values, IsScalarText value) :
    DenseRoundTrips ty values ↔ 0 ∉ ty.shape.dropLast := by
  obtain ⟨literal, hliteral, -, hparses⟩ :=
    nestedDenseLiteral_parses ty.shape values hlen hfits htexts
  have hcount : usizeProduct ty.shape = values.length := by
    rw [usizeProduct_eq, ← hlen]
    exact Nat.mod_eq_of_lt hfits
  have hcode : denseConstant ty values = .ok literal := by
    unfold denseConstant
    rw [if_neg hrank]
    simp only [hcount, bne_self_eq_false, failIf, bind, Except.bind]
    exact hliteral
  have hparse := parse_eq_some hparses
  rw [← visibleShape_eq_self_iff]
  constructor
  · rintro ⟨literal', hliteral', hparse'⟩
    obtain rfl := Except.ok.inj (hcode.symm.trans hliteral')
    exact (Prod.mk.inj (Option.some.inj (hparse.symm.trans hparse'))).1
  · intro hvisible
    exact ⟨literal, hcode, by rw [hparse, hvisible]⟩

theorem denseRoundTrips_iff_matrix :
    DenseRoundTrips ⟨.i32, [2, 1]⟩ ["7", "-5"] ↔ 0 ∉ [2, 1].dropLast :=
  denseRoundTrips_iff ⟨.i32, [2, 1]⟩ ["7", "-5"] (by decide) rfl (by norm_num)
    (by simp [IsScalarText, isScalarChar])

/-- A type with two axes, of which the literal shows one. -/
theorem not_denseRoundTrips_empty : ¬ DenseRoundTrips ⟨.f32, [0, 3]⟩ [] := by
  rintro ⟨literal, hliteral, hparse⟩
  have hcode : denseConstant ⟨.f32, [0, 3]⟩ [] = .ok "[]" := rfl
  obtain rfl := Except.ok.inj (hcode.symm.trans hliteral)
  exact absurd hparse (by decide)

end Knok.Lowering
