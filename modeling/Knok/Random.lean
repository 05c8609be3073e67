import Mathlib
import Knok.StaticCreation
import Knok.Arrays.Index
import Knok.Control.Checked

/-!
# Random generation

A random tensor is generated from a 64-bit key: the element with row-major
number `n` is a function of the mixed counter `key + n`, and the next key is the
key plus the number of elements.  The code exists twice, as a function that
expands literals while a graph is built (`splitmix64`) and as the body of the
operation that generates elements when the compiled graph runs
(`splitmix64InBlock`).

### Design decisions

* **Machine words.**  `u64` values and `i64` values of the compiled program are
  `BitVec 64`; an integer attribute is converted by `BitVec.ofInt`.
* **Elements.**  How an element is made from its hash is an argument of
  `randomTensor`; integers are made by `randomIntElement`.
-/

namespace Knok

open Arrays Control

/-! ## Mixing -/

/-- The mixer that expands literals, on bits. -/
def splitmix64Bits (value : BitVec 64) : BitVec 64 :=
  let value := value + 0x9E3779B97F4A7C15#64
  let mixed := (value ^^^ (value >>> 30)) * 0xBF58476D1CE4E5B9#64
  let mixed := (mixed ^^^ (mixed >>> 27)) * 0x94D049BB133111EB#64
  mixed ^^^ (mixed >>> 31)

theorem toBitVec_splitmix64 (value : UInt64) :
    (splitmix64 value).toBitVec = splitmix64Bits value.toBitVec := rfl

/-- `value as i64`. -/
def splitmixConst (value : BitVec 64) : ℤ := value.toInt

/-- An integer constant of the compiled program. -/
def intConstantInBlock (value : ℤ) : BitVec 64 := BitVec.ofInt 64 value

/-- `arith.shrui` by a constant amount. -/
def shiftRightI64 (value : BitVec 64) (amount : ℤ) : BitVec 64 :=
  value >>> (intConstantInBlock amount).toNat

/-- The mixer, as the compiled program runs it. -/
def splitmix64InBlock (value : BitVec 64) : BitVec 64 :=
  let value := value + intConstantInBlock (splitmixConst 0x9E3779B97F4A7C15#64)
  let xored := value ^^^ shiftRightI64 value 30
  let multiplied := xored * intConstantInBlock (splitmixConst 0xBF58476D1CE4E5B9#64)
  let xored := multiplied ^^^ shiftRightI64 multiplied 27
  let multiplied := xored * intConstantInBlock (splitmixConst 0x94D049BB133111EB#64)
  multiplied ^^^ shiftRightI64 multiplied 31

/-- Signed constants have the bits of the unsigned ones. -/
@[simp] theorem intConstantInBlock_splitmixConst (value : BitVec 64) :
    intConstantInBlock (splitmixConst value) = value :=
  BitVec.ofInt_toInt

/-- Both mixers compute the same bits. -/
theorem splitmix64InBlock_eq (value : BitVec 64) :
    splitmix64InBlock value = splitmix64Bits value := by
  have hamount : ∀ amount : ℕ, amount < 64 →
      ∀ v : BitVec 64, shiftRightI64 v amount = v >>> amount := by
    intro amount hlt v
    rw [shiftRightI64, intConstantInBlock, BitVec.ofInt_natCast, BitVec.toNat_ofNat,
      Nat.mod_eq_of_lt (hlt.trans (by norm_num))]
  have h30 := hamount 30 (by norm_num)
  have h27 := hamount 27 (by norm_num)
  have h31 := hamount 31 (by norm_num)
  simp only [Nat.cast_ofNat] at h30 h27 h31
  simp only [splitmix64InBlock, splitmix64Bits, intConstantInBlock_splitmixConst, h30, h27, h31]

/-- A word is determined by its xor with itself shifted to the right: its bits
follow from the highest one down. -/
theorem xor_ushiftRight_injective {w k : ℕ} (hk : 0 < k) :
    Function.Injective fun x : BitVec w => x ^^^ (x >>> k) := by
  intro x y hxy
  have hbits : ∀ n i, w ≤ i + n → x.getLsbD i = y.getLsbD i := by
    intro n
    induction n with
    | zero =>
        intro i hi
        rw [BitVec.getLsbD_of_ge x i (by omega), BitVec.getLsbD_of_ge y i (by omega)]
    | succ n ih =>
        intro i hi
        have hhigh := ih (k + i) (by omega)
        have hbit := congrArg (fun z : BitVec w => z.getLsbD i) hxy
        simp only [BitVec.getLsbD_xor, BitVec.getLsbD_ushiftRight, hhigh] at hbit
        exact Bool.xor_left_inj.mp hbit
  exact BitVec.eq_of_getLsbD_eq fun i hi => hbits w i (by omega)

/-- Multiplication by an invertible word. -/
theorem mul_injective_of_mul_eq_one {w : ℕ} {c d : BitVec w} (h : c * d = 1#w) :
    Function.Injective fun x : BitVec w => x * c := by
  intro x y hxy
  have hmul := congrArg (· * d) hxy
  simpa only [BitVec.mul_assoc, h, BitVec.mul_one] using hmul

/-- **The mixer loses nothing**: every one of its steps can be undone. -/
theorem splitmix64Bits_injective : Function.Injective splitmix64Bits := by
  have hadd : Function.Injective fun x : BitVec 64 => x + 0x9E3779B97F4A7C15#64 :=
    fun x y h => (BitVec.add_left_inj _).mp h
  have hmul₁ : Function.Injective fun x : BitVec 64 => x * 0xBF58476D1CE4E5B9#64 :=
    mul_injective_of_mul_eq_one (d := 0x96DE1B173F119089#64) (by decide)
  have hmul₂ : Function.Injective fun x : BitVec 64 => x * 0x94D049BB133111EB#64 :=
    mul_injective_of_mul_eq_one (d := 0x319642B2D24D8EC3#64) (by decide)
  exact (xor_ushiftRight_injective (by norm_num)).comp <| hmul₂.comp <|
    (xor_ushiftRight_injective (by norm_num)).comp <| hmul₁.comp <|
      (xor_ushiftRight_injective (by norm_num)).comp hadd

theorem splitmix64_injective : Function.Injective splitmix64 := by
  intro value value' heq
  have hbits := congrArg UInt64.toBitVec heq
  rw [toBitVec_splitmix64, toBitVec_splitmix64] at hbits
  exact UInt64.toBitVec_inj.mp (splitmix64Bits_injective hbits)

theorem splitmix64InBlock_injective : Function.Injective splitmix64InBlock := by
  rw [funext splitmix64InBlock_eq]
  exact splitmix64Bits_injective

/-! ## Elements and keys -/

/-- The row-major number of an element, as the compiled program computes it. -/
def flattenedLinalgIndex (shape index : List ℕ) : BitVec 64 :=
  match shape.zip index with
  | [] => intConstantInBlock 0
  | (_, first) :: rest =>
      rest.foldl (fun flattened (dim, i) =>
        flattened * intConstantInBlock dim + BitVec.ofNat 64 i) (BitVec.ofNat 64 first)

/-- The counters of the elements of a tensor, in row-major order. -/
def randomCounters (target : TensorType) (key : BitVec 64) : List (BitVec 64) :=
  (positions target.shape).map fun index => key + flattenedLinalgIndex target.shape index

/-- A random tensor, in row-major order; `sample` makes an element of a hash. -/
def randomTensor {α : Type*} (sample : BitVec 64 → α) (target : TensorType)
    (key : BitVec 64) : List α :=
  (randomCounters target key).map fun counter => sample (splitmix64InBlock counter)

/-- An integer between two bounds, from a hash. -/
def randomIntElement {w : ℕ} (low high : BitVec w) (hash : BitVec 64) : BitVec w :=
  low + hash.setWidth w % (high - low)

/-- The key after a tensor has been generated. -/
def randomNextKey (key : BitVec 64) (target : TensorType) : Except Error (BitVec 64) := do
  let count := usizeProduct target.shape
  failIf (2 ^ 63 ≤ count) "random output element count exceeds i64"
  return key + intConstantInBlock count

/-- A random operation: the type of its tensor, and how it makes an element of
a hash, which depends on the operation and its bounds. -/
structure RandomCall (α : Type) where
  target : TensorType
  sample : BitVec 64 → α

/-- The two outputs of a random operation: the tensor and the next key. -/
def RandomCall.outputs {α : Type} (call : RandomCall α) (key : BitVec 64) :
    Except Error (List α × BitVec 64) := do
  let next ← randomNextKey key call.target
  return (randomTensor call.sample call.target key, next)

/-- The number of elements of a sequence of random operations. -/
def totalCount {α : Type} (calls : List (RandomCall α)) : ℕ :=
  (calls.map fun call => call.target.shape.prod).sum

/-- How the elements of a sequence of random operations are made, in order. -/
def samples {α : Type} (calls : List (RandomCall α)) : List (BitVec 64 → α) :=
  calls.flatMap fun call => List.replicate call.target.shape.prod call.sample

/-- The counters of a sequence of random operations, each called with the next
key of the one before, and the elements they generate. -/
def draw {α : Type} : BitVec 64 → List (RandomCall α) → Except Error (List (BitVec 64) × List α)
  | _, [] => .ok ([], [])
  | key, call :: calls => do
      let (tensor, next) ← call.outputs key
      let (counters, elements) ← draw next calls
      return (randomCounters call.target key ++ counters, tensor ++ elements)

/-- The code's loop over the axes computes the row-major number. -/
theorem flattenedLinalgIndex_eq {shape index : List ℕ} (hlen : index.length = shape.length) :
    flattenedLinalgIndex shape index = BitVec.ofNat 64 (ravel shape index) := by
  have hloop : ∀ (shape index : List ℕ), index.length = shape.length → ∀ n : ℕ,
      (shape.zip index).foldl (fun flattened (dim, i) =>
          flattened * intConstantInBlock dim + BitVec.ofNat 64 i) (BitVec.ofNat 64 n) =
        BitVec.ofNat 64 (n * shape.prod + ravel shape index) := by
    intro shape
    induction shape with
    | nil =>
        intro index hlen n
        obtain rfl := List.length_eq_zero_iff.mp hlen
        simp [ravel]
    | cons dim shape ih =>
        intro index hlen n
        obtain ⟨i, index, rfl⟩ := List.exists_cons_of_length_eq_add_one hlen
        have hstep : BitVec.ofNat 64 n * intConstantInBlock dim + BitVec.ofNat 64 i =
            BitVec.ofNat 64 (n * dim + i) := by
          rw [intConstantInBlock, BitVec.ofInt_natCast, ← BitVec.ofNat_mul, ← BitVec.ofNat_add]
        rw [List.zip_cons_cons, List.foldl_cons]
        dsimp only
        rw [hstep, ih index (by simpa using hlen), ravel, List.prod_cons]
        congr 1
        ring
  cases shape with
  | nil =>
      obtain rfl := List.length_eq_zero_iff.mp hlen
      rfl
  | cons dim shape =>
      obtain ⟨i, index, rfl⟩ := List.exists_cons_of_length_eq_add_one hlen
      exact hloop shape index (by simpa using hlen) i

/-- The counters count up from the key. -/
theorem randomCounters_eq (target : TensorType) (key : BitVec 64) :
    randomCounters target key =
      (List.range target.shape.prod).map fun n => key + BitVec.ofNat 64 n := by
  rw [randomCounters, ← map_ravel_positions, List.map_map]
  refine List.map_congr_left fun index hindex => ?_
  rw [Function.comp_apply, flattenedLinalgIndex_eq (mem_positions.mp hindex).length_eq]

/-- The next key is the key plus the number of elements, also where that number
does not fit in a word. -/
theorem randomNextKey_eq_ok {key next : BitVec 64} {target : TensorType}
    (h : randomNextKey key target = .ok next) :
    next = key + BitVec.ofNat 64 target.shape.prod := by
  obtain ⟨-, -, hnext⟩ := except_bind_eq_ok_iff.mp h
  obtain rfl := except_pure_eq_ok_iff.mp hnext
  rw [intConstantInBlock, BitVec.ofInt_natCast, usizeProduct_eq]
  congr 1
  exact BitVec.eq_of_toNat_eq (by simp)

/-- **A sequence of draws counts up from the first key**, over all its elements. -/
theorem draw_eq {α : Type} {calls : List (RandomCall α)} :
    ∀ {key : BitVec 64} {counters : List (BitVec 64)} {elements : List α},
      draw key calls = .ok (counters, elements) →
      counters = (List.range (totalCount calls)).map fun n => key + BitVec.ofNat 64 n := by
  induction calls with
  | nil =>
      intro key counters elements h
      cases h
      rfl
  | cons call calls ih =>
      intro key counters elements h
      obtain ⟨⟨tensor, next⟩, houtputs, hrest⟩ := except_bind_eq_ok_iff.mp h
      obtain ⟨⟨later, _⟩, hlater, hdone⟩ := except_bind_eq_ok_iff.mp hrest
      obtain ⟨rfl, -⟩ := Prod.mk.inj (except_pure_eq_ok_iff.mp hdone)
      obtain ⟨next', hnext, hpure⟩ := except_bind_eq_ok_iff.mp houtputs
      obtain ⟨-, rfl⟩ := Prod.mk.inj (except_pure_eq_ok_iff.mp hpure)
      obtain rfl := randomNextKey_eq_ok hnext
      have hshift : ∀ n : ℕ, key + BitVec.ofNat 64 call.target.shape.prod +
          BitVec.ofNat 64 n = key + BitVec.ofNat 64 (call.target.shape.prod + n) := by
        intro n
        rw [BitVec.add_assoc, ← BitVec.ofNat_add]
      rw [randomCounters_eq, ih hlater, totalCount, totalCount, List.map_cons, List.sum_cons,
        List.range_add, List.map_append, List.map_map]
      simp only [hshift, Function.comp_def]

/-- One call hashes one counter for each of its elements. -/
theorem randomTensor_eq {α : Type} (sample : BitVec 64 → α) (target : TensorType)
    (key : BitVec 64) :
    randomTensor sample target key =
      List.zipWith (fun sample counter => sample (splitmix64InBlock counter))
        (List.replicate target.shape.prod sample) (randomCounters target key) := by
  have hlen : target.shape.prod = (randomCounters target key).length := by
    rw [randomCounters_eq, List.length_map, List.length_range]
  rw [hlen, randomTensor, ← List.map_const', List.zipWith_map_left, List.zipWith_self]

/-- **Every element is made of the hash of its own counter.** -/
theorem draw_elements {α : Type} {calls : List (RandomCall α)} :
    ∀ {key : BitVec 64} {counters : List (BitVec 64)} {elements : List α},
      draw key calls = .ok (counters, elements) →
      elements = List.zipWith (fun sample counter => sample (splitmix64InBlock counter))
        (samples calls) counters := by
  induction calls with
  | nil =>
      intro key counters elements h
      cases h
      rfl
  | cons call calls ih =>
      intro key counters elements h
      obtain ⟨⟨tensor, next⟩, houtputs, hrest⟩ := except_bind_eq_ok_iff.mp h
      obtain ⟨⟨later, laterElements⟩, hlater, hdone⟩ := except_bind_eq_ok_iff.mp hrest
      obtain ⟨rfl, rfl⟩ := Prod.mk.inj (except_pure_eq_ok_iff.mp hdone)
      obtain ⟨next', -, hpure⟩ := except_bind_eq_ok_iff.mp houtputs
      obtain ⟨rfl, rfl⟩ := Prod.mk.inj (except_pure_eq_ok_iff.mp hpure)
      have hlen : (List.replicate call.target.shape.prod call.sample).length =
          (randomCounters call.target key).length := by
        rw [randomCounters_eq, List.length_replicate, List.length_map, List.length_range]
      rw [randomTensor_eq, ih hlater, samples, samples, List.flatMap_cons,
        List.zipWith_append hlen]

/-- Up to `2 ^ 64` counters in a row are distinct. -/
theorem nodup_counters {total : ℕ} (htotal : total ≤ 2 ^ 64) (key : BitVec 64) :
    ((List.range total).map fun n => key + BitVec.ofNat 64 n).Nodup := by
  refine List.Nodup.map_on ?_ List.nodup_range
  intro m hm n hn h
  have hmn := congrArg BitVec.toNat ((BitVec.add_right_inj _).mp h)
  rw [List.mem_range] at hm hn
  rwa [BitVec.toNat_ofNat, BitVec.toNat_ofNat, Nat.mod_eq_of_lt (by omega),
    Nat.mod_eq_of_lt (by omega)] at hmn

/-- **Threading the key never reuses a counter.**  In a sequence of random
operations with at most `2 ^ 64` elements, every element is made of the hash of its
own counter, in order; all counters are distinct, and so are their hashes; and a
single tensor with that many elements, drawn from the first key, hashes the same
counters in the same order. -/
theorem draw_distinct {α : Type} (key : BitVec 64) (calls : List (RandomCall α))
    (counters : List (BitVec 64)) (elements : List α)
    (h : draw key calls = .ok (counters, elements)) (htotal : totalCount calls ≤ 2 ^ 64) :
    counters.length = totalCount calls ∧
      elements = List.zipWith (fun sample counter => sample (splitmix64InBlock counter))
        (samples calls) counters ∧
      counters.Nodup ∧ (counters.map splitmix64InBlock).Nodup ∧
      Function.Injective splitmix64InBlock ∧ Function.Injective splitmix64 ∧
      ∀ target : TensorType, target.shape.prod = totalCount calls →
        counters = randomCounters target key ∧
        ∀ sample : BitVec 64 → α, randomTensor sample target key =
          counters.map fun counter => sample (splitmix64InBlock counter) := by
  have hcounters := draw_eq h
  have hnodup : counters.Nodup := hcounters ▸ nodup_counters htotal key
  refine ⟨?_, draw_elements h, hnodup, hnodup.map splitmix64InBlock_injective,
    splitmix64InBlock_injective, splitmix64_injective, fun target htarget => ?_⟩
  · rw [hcounters, List.length_map, List.length_range]
  · have hsame : counters = randomCounters target key := by
      rw [randomCounters_eq, htarget, hcounters]
    exact ⟨hsame, fun sample => by rw [hsame, randomTensor]⟩

theorem draw_distinct_twoCalls :
    ([-1, 0, 1, 2, 3, 4, 5] : List (BitVec 64)).Nodup ∧
      (([-1, 0, 1, 2, 3, 4, 5] : List (BitVec 64)).map splitmix64InBlock).Nodup ∧
      [-1, 0, 1, 2, 3, 4, 5] = randomCounters ⟨.f32, [7]⟩ (-1) :=
  have h := draw_distinct (-1) [⟨⟨.i64, [2, 2]⟩, id⟩, ⟨⟨.i64, [3]⟩, randomIntElement 10 20⟩]
    [-1, 0, 1, 2, 3, 4, 5] _ rfl (by decide)
  ⟨h.2.2.1, h.2.2.2.1, (h.2.2.2.2.2.2 ⟨.f32, [7]⟩ rfl).1⟩

end Knok
