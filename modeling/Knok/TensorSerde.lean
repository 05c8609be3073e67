import Mathlib
import Knok.Tensor
import Knok.Control.Checked

/-!
# Host tensors on the wire

A tensor is written as a structure with the fields `shape` and `data`.  A format
delivers it either as a map, keys in any order, or as a sequence; the visitor
accepts both and rebuilds the tensor through its validating constructor.

### Design decisions

* **Formats.**  A `SerdeFormat` is what a data format does with the two field
  values; that it gives back what it was given is a field of the structure.
* **Wire forms.**  A map is the list of its entries in the order in which they
  arrive, a sequence the list of its elements.
-/

namespace Knok.Host

open Control
open Arrays (Nested InBounds ravel)

variable {T V : Type}

/-- A failed deserialisation. -/
inductive SerdeError where
  | custom (message : String)
  | tensor (fault : TensorFault)
  | unknownField (field : String)
  | duplicateField (field : String)
  | missingField (field : String)
  | invalidLength (len : ℕ)
  deriving DecidableEq

/-- How a data format writes and reads the values of the two fields. -/
structure SerdeFormat (T V : Type) where
  ofShape : List ℕ → V
  ofData : List T → V
  toShape : V → Except SerdeError (List ℕ)
  toData : V → Except SerdeError (List T)
  toShape_ofShape : ∀ shape, toShape (ofShape shape) = .ok shape
  toData_ofData : ∀ data, toData (ofData data) = .ok data

/-- The field that a key names. -/
inductive TensorSerdeField where
  | shape
  | data
  deriving DecidableEq

/-- Reads a key. -/
def TensorSerdeField.visitStr (value : String) : Except SerdeError TensorSerdeField :=
  if value = "shape" then .ok .shape
  else if value = "data" then .ok .data
  else .error (.unknownField value)

/-- The tensor from the values of its two fields. -/
def tensorFromSerdeParts (expectedShape shape : List ℕ) (data : List T) :
    Except SerdeError (Tensor T expectedShape) :=
  if shape ≠ expectedShape then
    .error (.custom s!"tensor shape mismatch: expected {expectedShape}, got {shape}")
  else
    match Tensor.fromVec data with
    | .ok t => .ok t
    | .error fault => .error (.tensor fault)

section Visitor

variable (format : SerdeFormat T V) (expectedShape : List ℕ)

/-- The loop over the entries of a map. -/
def visitEntries : List (String × V) → Option (List ℕ) → Option (List T) →
    Except SerdeError (Option (List ℕ) × Option (List T))
  | [], shape, data => .ok (shape, data)
  | (key, value) :: entries, shape, data => do
      match ← TensorSerdeField.visitStr key with
      | .shape => do
          if shape.isSome then throw (.duplicateField "shape")
          let found ← format.toShape value
          visitEntries entries (some found) data
      | .data => do
          if data.isSome then throw (.duplicateField "data")
          let found ← format.toData value
          visitEntries entries shape (some found)

/-- A tensor from a map. -/
def visitMap (entries : List (String × V)) : Except SerdeError (Tensor T expectedShape) := do
  match ← visitEntries format entries none none with
  | (none, _) => throw (.missingField "shape")
  | (some _, none) => throw (.missingField "data")
  | (some shape, some data) => tensorFromSerdeParts expectedShape shape data

/-- A tensor from a sequence. -/
def visitSeq (elements : List V) : Except SerdeError (Tensor T expectedShape) := do
  match elements with
  | [] => throw (.invalidLength 0)
  | shape :: rest => do
      let shape ← format.toShape shape
      match rest with
      | [] => throw (.invalidLength 1)
      | data :: rest => do
          let data ← format.toData data
          match rest with
          | _ :: _ => throw (.invalidLength 3)
          | [] => tensorFromSerdeParts expectedShape shape data

/-- A tensor as a map. -/
def serializeMap {shape : List ℕ} (t : Tensor T shape) : List (String × V) :=
  [("shape", format.ofShape t.SHAPE), ("data", format.ofData t.asSlice)]

/-- A tensor as a sequence. -/
def serializeSeq {shape : List ℕ} (t : Tensor T shape) : List V :=
  [format.ofShape t.SHAPE, format.ofData t.asSlice]

end Visitor

/-! ## What is accepted -/

section Accepted

variable {format : SerdeFormat T V} {expectedShape : List ℕ}

theorem visitStr_eq_ok_iff {key : String} {field : TensorSerdeField} :
    TensorSerdeField.visitStr key = .ok field ↔
      (key = "shape" ∧ field = .shape) ∨ (key = "data" ∧ field = .data) := by
  unfold TensorSerdeField.visitStr
  split_ifs with hshape hdata
  · subst hshape
    cases field <;> simp
  · subst hdata
    cases field <;> simp
  · simp [hshape, hdata]

theorem visitEntries_cons_eq_ok_iff {key : String} {value : V} {entries : List (String × V)}
    {shape : Option (List ℕ)} {data : Option (List T)}
    {result : Option (List ℕ) × Option (List T)} :
    visitEntries format ((key, value) :: entries) shape data = .ok result ↔
      (key = "shape" ∧ shape = none ∧ ∃ found, format.toShape value = .ok found ∧
        visitEntries format entries (some found) data = .ok result) ∨
      (key = "data" ∧ data = none ∧ ∃ found, format.toData value = .ok found ∧
        visitEntries format entries shape (some found) = .ok result) := by
  rw [visitEntries, except_bind_eq_ok_iff]
  constructor
  · rintro ⟨field, hfield, hrest⟩
    rcases visitStr_eq_ok_iff.mp hfield with ⟨rfl, rfl⟩ | ⟨rfl, rfl⟩
    · cases shape with
      | some _ => cases hrest
      | none => exact .inl ⟨rfl, rfl, except_bind_eq_ok_iff.mp hrest⟩
    · cases data with
      | some _ => cases hrest
      | none => exact .inr ⟨rfl, rfl, except_bind_eq_ok_iff.mp hrest⟩
  · rintro (⟨rfl, rfl, hrest⟩ | ⟨rfl, rfl, hrest⟩)
    · exact ⟨.shape, rfl, except_bind_eq_ok_iff.mpr hrest⟩
    · exact ⟨.data, rfl, except_bind_eq_ok_iff.mpr hrest⟩

/-- Both fields have arrived: there is no further entry. -/
theorem visitEntries_both {entries : List (String × V)} {shape : List ℕ} {data : List T}
    {result : Option (List ℕ) × Option (List T)} :
    visitEntries format entries (some shape) (some data) = .ok result ↔
      entries = [] ∧ result = (some shape, some data) := by
  cases entries with
  | nil => simp [visitEntries, eq_comm]
  | cons entry entries =>
      obtain ⟨key, value⟩ := entry
      simp [visitEntries_cons_eq_ok_iff]

/-- The shape has arrived: the data has still to come, and nothing else. -/
theorem visitEntries_shape {entries : List (String × V)} {shape found : List ℕ} {data : List T} :
    visitEntries format entries (some shape) none = .ok (some found, some data) ↔
      found = shape ∧ ∃ value, entries = [("data", value)] ∧ format.toData value = .ok data := by
  cases entries with
  | nil => simp [visitEntries]
  | cons entry entries =>
      obtain ⟨key, value⟩ := entry
      rw [visitEntries_cons_eq_ok_iff]
      constructor
      · rintro (⟨-, hnone, -⟩ | ⟨rfl, -, data', hdata, hrest⟩)
        · cases hnone
        · obtain ⟨rfl, hresult⟩ := visitEntries_both.mp hrest
          cases hresult
          exact ⟨rfl, value, rfl, hdata⟩
      · rintro ⟨rfl, value', hentries, hdata⟩
        cases hentries
        exact .inr ⟨rfl, rfl, data, hdata, visitEntries_both.mpr ⟨rfl, rfl⟩⟩

/-- The data has arrived: the shape has still to come, and nothing else. -/
theorem visitEntries_data {entries : List (String × V)} {shape : List ℕ} {data found : List T} :
    visitEntries format entries none (some data) = .ok (some shape, some found) ↔
      found = data ∧ ∃ value, entries = [("shape", value)] ∧ format.toShape value = .ok shape := by
  cases entries with
  | nil => simp [visitEntries]
  | cons entry entries =>
      obtain ⟨key, value⟩ := entry
      rw [visitEntries_cons_eq_ok_iff]
      constructor
      · rintro (⟨rfl, -, shape', hshape, hrest⟩ | ⟨-, hnone, -⟩)
        · obtain ⟨rfl, hresult⟩ := visitEntries_both.mp hrest
          cases hresult
          exact ⟨rfl, value, rfl, hshape⟩
        · cases hnone
      · rintro ⟨rfl, value', hentries, hshape⟩
        cases hentries
        exact .inl ⟨rfl, rfl, shape, hshape, visitEntries_both.mpr ⟨rfl, rfl⟩⟩

/-- **A map has both fields exactly once**, in either order. -/
theorem visitEntries_none {entries : List (String × V)} {shape : List ℕ} {data : List T} :
    visitEntries format entries none none = .ok (some shape, some data) ↔
      ∃ shapeValue dataValue, entries.Perm [("shape", shapeValue), ("data", dataValue)] ∧
        format.toShape shapeValue = .ok shape ∧ format.toData dataValue = .ok data := by
  constructor
  · intro h
    cases entries with
    | nil => cases h
    | cons entry entries =>
        obtain ⟨key, value⟩ := entry
        rcases visitEntries_cons_eq_ok_iff.mp h with
          ⟨rfl, -, shape', hshape, hrest⟩ | ⟨rfl, -, data', hdata, hrest⟩
        · obtain ⟨rfl, value', rfl, hdata⟩ := visitEntries_shape.mp hrest
          exact ⟨value, value', .refl _, hshape, hdata⟩
        · obtain ⟨rfl, value', rfl, hshape⟩ := visitEntries_data.mp hrest
          exact ⟨value', value, .swap .., hshape, hdata⟩
  · rintro ⟨shapeValue, dataValue, hperm, hshape, hdata⟩
    rcases List.perm_pair.mp hperm with rfl | rfl
    · exact visitEntries_cons_eq_ok_iff.mpr (.inl ⟨rfl, rfl, shape, hshape,
        visitEntries_shape.mpr ⟨rfl, dataValue, rfl, hdata⟩⟩)
    · exact visitEntries_cons_eq_ok_iff.mpr (.inr ⟨rfl, rfl, data, hdata,
        visitEntries_data.mpr ⟨rfl, shapeValue, rfl, hshape⟩⟩)

/-- The validating constructor accepts exactly the data of the right length. -/
theorem fromVec_eq_ok_iff {shape : List ℕ} (hsize : shape.prod < 2 ^ 64) {data : List T}
    {t : Tensor T shape} :
    Tensor.fromVec data = .ok t ↔ t.storage.data = data ∧ t.WellFormed := by
  have hproduct : usizeProduct shape = shape.prod := by
    rw [usizeProduct_eq, Nat.mod_eq_of_lt hsize]
  obtain ⟨⟨elements⟩⟩ := t
  unfold Tensor.fromVec TensorData.fromVec Tensor.WellFormed
  rw [hproduct]
  by_cases hlen : data.length = shape.prod
  · simp only [ne_eq, hlen, not_true_eq_false, ↓reduceIte]
    constructor
    · intro h
      cases h
      exact ⟨rfl, hlen⟩
    · rintro ⟨rfl, -⟩
      rfl
  · simp only [ne_eq, hlen, not_false_eq_true, ↓reduceIte]
    constructor
    · intro h
      cases h
    · rintro ⟨rfl, hwf⟩
      exact absurd hwf hlen

theorem tensorFromSerdeParts_eq_ok_iff (hsize : expectedShape.prod < 2 ^ 64) {shape : List ℕ}
    {data : List T} {t : Tensor T expectedShape} :
    tensorFromSerdeParts expectedShape shape data = .ok t ↔
      shape = expectedShape ∧ t.storage.data = data ∧ t.WellFormed := by
  unfold tensorFromSerdeParts
  split_ifs with hshape
  · simpa using fun h => absurd h hshape
  · rw [← fromVec_eq_ok_iff hsize]
    cases @Tensor.fromVec T expectedShape data <;> simp [not_not.mp hshape]

/-- **A map is accepted exactly if it has both fields once, in any order, the shape
is the expected one and there is an element for each position.** -/
theorem visitMap_eq_ok_iff (hsize : expectedShape.prod < 2 ^ 64) {entries : List (String × V)}
    {t : Tensor T expectedShape} :
    visitMap format expectedShape entries = .ok t ↔
      ∃ shape data, entries.Perm [("shape", shape), ("data", data)] ∧
        format.toShape shape = .ok expectedShape ∧ format.toData data = .ok t.storage.data ∧
          t.WellFormed := by
  unfold visitMap
  rw [except_bind_eq_ok_iff]
  constructor
  · rintro ⟨⟨_ | shape, _ | data⟩, hentries, hrest⟩
    · cases hrest
    · cases hrest
    · cases hrest
    · obtain ⟨rfl, rfl, hwf⟩ := (tensorFromSerdeParts_eq_ok_iff hsize).mp hrest
      obtain ⟨shape, data, hperm, hshape, hdata⟩ := visitEntries_none.mp hentries
      exact ⟨shape, data, hperm, hshape, hdata, hwf⟩
  · rintro ⟨shape, data, hperm, hshape, hdata, hwf⟩
    exact ⟨_, visitEntries_none.mpr ⟨shape, data, hperm, hshape, hdata⟩,
      (tensorFromSerdeParts_eq_ok_iff hsize).mpr ⟨rfl, rfl, hwf⟩⟩

/-- **A sequence is accepted exactly if it is the expected shape and the elements.** -/
theorem visitSeq_eq_ok_iff (hsize : expectedShape.prod < 2 ^ 64) {elements : List V}
    {t : Tensor T expectedShape} :
    visitSeq format expectedShape elements = .ok t ↔
      ∃ shape data, elements = [shape, data] ∧ format.toShape shape = .ok expectedShape ∧
        format.toData data = .ok t.storage.data ∧ t.WellFormed := by
  constructor
  · intro h
    match elements with
    | [] => cases h
    | [shape] =>
        obtain ⟨_, -, hrest⟩ := except_bind_eq_ok_iff.mp h
        cases hrest
    | shape :: data :: rest =>
        obtain ⟨found, hshape, hrest⟩ := except_bind_eq_ok_iff.mp h
        obtain ⟨found', hdata, hrest⟩ := except_bind_eq_ok_iff.mp hrest
        cases rest with
        | cons _ _ => cases hrest
        | nil =>
            obtain ⟨rfl, rfl, hwf⟩ := (tensorFromSerdeParts_eq_ok_iff hsize).mp hrest
            exact ⟨shape, data, rfl, hshape, hdata, hwf⟩
  · rintro ⟨shape, data, rfl, hshape, hdata, hwf⟩
    exact except_bind_eq_ok_iff.mpr ⟨_, hshape, except_bind_eq_ok_iff.mpr ⟨_, hdata,
      (tensorFromSerdeParts_eq_ok_iff hsize).mpr ⟨rfl, rfl, hwf⟩⟩⟩

end Accepted

/-! ## The invariant -/

section Invariant

variable {s : FixedShape}

theorem wellFormed_fromArray (x : Nested T s.dims) : (s.fromArray x).WellFormed := by
  rw [Tensor.WellFormed, FixedShape.fromArray_data]
  exact Nested.length_elements s.dims x

theorem wellFormed_filled (hsize : s.dims.prod < 2 ^ 64) (value : T) :
    (s.filled value).WellFormed := by
  have hproduct : usizeProduct s.dims = s.dims.prod := by
    rw [usizeProduct_eq, Nat.mod_eq_of_lt hsize]
  have hfilled : (Tensor.filled value : Tensor T s.dims).WellFormed := by
    rw [Tensor.WellFormed, Tensor.filled, TensorData.filled, List.length_replicate, hproduct]
  cases s with
  | rank0 => rfl
  | _ => exact hfilled

theorem wellFormed_asMutSlice {shape : List ℕ} {t t' : Tensor T shape} (ht : t.WellFormed)
    {index : ℕ} {value : T} (h : t.asMutSlice index value = .ok t') : t'.WellFormed := by
  obtain ⟨storage, hstorage, hresult⟩ := except_bind_eq_ok_iff.mp h
  cases hresult
  unfold TensorData.indexMut at hstorage
  split_ifs at hstorage
  cases hstorage
  exact (List.length_set ..).trans ht

/-- **An element is found exactly in bounds.** -/
theorem isSome_get (hsize : s.dims.prod < 2 ^ 64) {t : Tensor T s.dims} (ht : t.WellFormed)
    (index : List ℕ) :
    ∃ found, s.get t index = .ok found ∧ (found.isSome ↔ InBounds index s.dims) := by
  refine ⟨_, s.get_eq hsize ht index, ?_⟩
  by_cases h : InBounds index s.dims
  · have hlt : ravel s.dims index < t.storage.data.length := by
      rw [ht]
      exact Arrays.ravel_lt h
    simp [h, List.getElem?_eq_getElem hlt]
  · simp [h]

/-- **A write is possible exactly in bounds, and changes one element.** -/
theorem isSome_getMut (hsize : s.dims.prod < 2 ^ 64) {t : Tensor T s.dims} (ht : t.WellFormed)
    (index : List ℕ) (value : T) :
    ∃ written, s.getMut t index value = .ok written ∧
      (written.isSome ↔ InBounds index s.dims) ∧
        ∀ t' ∈ written, t'.WellFormed ∧ s.get t' index = .ok (some value) ∧
          ∀ other, other ≠ index → s.get t' other = s.get t other := by
  refine ⟨_, s.getMut_eq hsize ht index value, ?_⟩
  by_cases h : InBounds index s.dims
  · have hlt : ravel s.dims index < t.storage.data.length := by
      rw [ht]
      exact Arrays.ravel_lt h
    rw [if_pos h]
    refine ⟨by simpa using h, fun t' ht' => ?_⟩
    obtain rfl := Option.some.inj ht'
    have hwf : (⟨⟨t.storage.data.set (ravel s.dims index) value⟩⟩ : Tensor T s.dims).WellFormed :=
      (List.length_set ..).trans ht
    refine ⟨hwf, ?_, fun other hother => ?_⟩
    · rw [s.get_eq hsize hwf, if_pos h, List.getElem?_set_self hlt]
    · rw [s.get_eq hsize hwf, s.get_eq hsize ht]
      by_cases h' : InBounds other s.dims
      · -- distinct positions have distinct numbers
        have hne : ravel s.dims index ≠ ravel s.dims other := by
          intro heq
          apply hother
          rw [← Arrays.unravel_ravel h', ← heq, Arrays.unravel_ravel h]
        rw [if_pos h', if_pos h', List.getElem?_set_ne hne]
      · rw [if_neg h', if_neg h']
  · rw [if_neg h]
    simpa using h

theorem get_fromArray (hsize : s.dims.prod < 2 ^ 64) (x : Nested T s.dims) (index : List ℕ) :
    s.get (s.fromArray x) index = .ok (Nested.get? s.dims x index) := by
  rw [s.get_eq hsize (wellFormed_fromArray x), s.fromArray_data]
  by_cases h : InBounds index s.dims
  · rw [if_pos h, Nested.elements_getElem?_ravel h]
  · rw [if_neg h]
    have hnone := mt (Nested.isSome_get? x index).mp h
    rw [Option.not_isSome_iff_eq_none.mp hnone]

end Invariant

/-- **Fixed-shape tensors keep their representation invariant.**  For every rank and
all dimensions: every constructor yields one element for each position; elements
are read and written exactly in bounds, without a panic, and a write changes one
of them; an array is read back by its own indices; a tensor comes back from the
wire; and nothing comes from the wire but the two fields, once each, with the
right shape and number of elements. -/
theorem tensors_keepInvariant (s : FixedShape) (hsize : s.dims.prod < 2 ^ 64)
    (format : SerdeFormat T V) :
    ((∀ data (t : Tensor T s.dims), Tensor.fromVec data = .ok t → t.WellFormed) ∧
      (∀ x : Nested T s.dims, (s.fromArray x).WellFormed) ∧
      (∀ value : T, (s.filled value).WellFormed) ∧
      (∀ entries t, visitMap format s.dims entries = .ok t → t.WellFormed) ∧
      ∀ elements t, visitSeq format s.dims elements = .ok t → t.WellFormed) ∧
    (∀ t : Tensor T s.dims, t.WellFormed → ∀ index,
      (∃ found, s.get t index = .ok found ∧ (found.isSome ↔ InBounds index s.dims)) ∧
      ∀ value, ∃ written, s.getMut t index value = .ok written ∧
        (written.isSome ↔ InBounds index s.dims) ∧
          ∀ t' ∈ written, t'.WellFormed ∧ s.get t' index = .ok (some value) ∧
            ∀ other, other ≠ index → s.get t' other = s.get t other) ∧
    (∀ (x : Nested T s.dims) index,
      s.get (s.fromArray x) index = .ok (Nested.get? s.dims x index)) ∧
    (∀ t : Tensor T s.dims, t.WellFormed →
      visitMap format s.dims (serializeMap format t) = .ok t ∧
        visitSeq format s.dims (serializeSeq format t) = .ok t) ∧
    (∀ entries (t : Tensor T s.dims), visitMap format s.dims entries = .ok t →
      ∃ shape data, entries.Perm [("shape", shape), ("data", data)] ∧
        format.toShape shape = .ok s.dims ∧ format.toData data = .ok t.storage.data ∧
          t.storage.data.length = s.dims.prod) ∧
    ∀ elements (t : Tensor T s.dims), visitSeq format s.dims elements = .ok t →
      ∃ shape data, elements = [shape, data] ∧
        format.toShape shape = .ok s.dims ∧ format.toData data = .ok t.storage.data ∧
          t.storage.data.length = s.dims.prod := by
  refine ⟨⟨fun data t h => ((fromVec_eq_ok_iff hsize).mp h).2, wellFormed_fromArray,
    wellFormed_filled hsize, ?_, ?_⟩, ?_, get_fromArray hsize, ?_, ?_, ?_⟩
  · intro entries t h
    obtain ⟨_, _, -, -, -, hwf⟩ := (visitMap_eq_ok_iff hsize).mp h
    exact hwf
  · intro elements t h
    obtain ⟨_, _, -, -, -, hwf⟩ := (visitSeq_eq_ok_iff hsize).mp h
    exact hwf
  · exact fun t ht index => ⟨isSome_get hsize ht index, isSome_getMut hsize ht index⟩
  · intro t ht
    have hfields := And.intro (format.toShape_ofShape s.dims) (format.toData_ofData t.storage.data)
    exact ⟨(visitMap_eq_ok_iff hsize).mpr ⟨_, _, .refl _, hfields.1, hfields.2, ht⟩,
      (visitSeq_eq_ok_iff hsize).mpr ⟨_, _, rfl, hfields.1, hfields.2, ht⟩⟩
  · exact fun entries t h => (visitMap_eq_ok_iff hsize).mp h
  · exact fun elements t h => (visitSeq_eq_ok_iff hsize).mp h

/-- A format of tagged values. -/
def taggedFormat : SerdeFormat ℤ (List ℕ ⊕ List ℤ) where
  ofShape := .inl
  ofData := .inr
  toShape
    | .inl shape => .ok shape
    | .inr _ => .error (.custom "invalid type")
  toData
    | .inr data => .ok data
    | .inl _ => .error (.custom "invalid type")
  toShape_ofShape _ := rfl
  toData_ofData _ := rfl

/-- The rows of a matrix. -/
def twoRows : Vector (Vector ℤ 3) 2 := #v[#v[1, 2, 3], #v[4, 5, 6]]

theorem tensors_keepInvariant_twoRows :
    FixedShape.get (.rank2 2 3) (Tensor2.fromArray twoRows) [1, 2] = .ok (some 6) ∧
    visitMap taggedFormat [2, 3] [("shape", .inl [2, 3]), ("data", .inr [1, 2, 3, 4, 5, 6])] =
      .ok (Tensor2.fromArray twoRows) :=
  have h := tensors_keepInvariant (.rank2 2 3) (by decide) taggedFormat
  ⟨h.2.2.1 twoRows [1, 2], (h.2.2.2.1 (Tensor2.fromArray twoRows) rfl).1⟩

end Knok.Host
