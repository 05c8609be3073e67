import Mathlib
import Knok.Ast
import Knok.CacheKey
import Knok.Control.Checked

/-!
# Artifacts

A generated module embeds its graph as an artifact: the signature and archives
compiled for different backends.  An engine runs on one driver and takes the first
archive for it.  The module also names its Rust types in a typed handle; creating the
handle checks the signature of the types against the artifact's.
-/

namespace Knok

open Control

/-! ## Drivers -/

/-- The runtime drivers, over all platforms and features. -/
inductive Driver where
  | localTask
  | localSync
  | metal
  | vulkan
  | cuda
  deriving DecidableEq

def Driver.name : Driver → String
  | .localTask => "local-task"
  | .localSync => "local-sync"
  | .metal => "metal"
  | .vulkan => "vulkan"
  | .cuda => "cuda"

def Driver.fromName : String → Option Driver
  | "local-task" => some .localTask
  | "local-sync" => some .localSync
  | "metal" => some .metal
  | "vulkan" => some .vulkan
  | "cuda" => some .cuda
  | _ => none

/-- The driver that a backend runs on by default. -/
def IreeBackend.defaultDriver : IreeBackend → String
  | .llvmCpu => Driver.localTask.name
  | .metalSpirv => Driver.metal.name
  | .vulkanSpirv => Driver.vulkan.name
  | .cuda => Driver.cuda.name

def IreeBackend.supportsDriver : IreeBackend → Driver → Bool
  | .llvmCpu, .localTask | .llvmCpu, .localSync => true
  | backend, driver => backend.defaultDriver == driver.name

/-! ## Artifacts -/

/-- A `&'static [u8]`: where it is. -/
structure StaticBytes where
  address : ℕ
  len : ℕ
  deriving DecidableEq

/-- One archive of an artifact. -/
structure GraphArtifactVariant where
  vmfb : StaticBytes
  backend : IreeBackend
  compileFlags : List String
  deriving DecidableEq

structure GraphArtifact where
  functionName : String
  inputDescs : List TensorType
  outputDescs : List TensorType
  variants : List GraphArtifactVariant
  deriving DecidableEq

namespace GraphArtifact

/-- The first variant that runs on a driver. -/
def variantForDriver (artifact : GraphArtifact) (driver : Driver) : Option GraphArtifactVariant :=
  artifact.variants.find? fun variant => variant.backend.supportsDriver driver

def firstVariant (artifact : GraphArtifact) : Option GraphArtifactVariant :=
  artifact.variants.head?

end GraphArtifact

/-! ## Typed handles -/

/-- A tensor type of the runtime crate: rank, element type and dimensions as Rust
writes them. -/
structure TensorHandle where
  name : String
  elem : String
  dims : List ℕ
  deriving DecidableEq

/-- All inputs or all outputs of a graph, each of an `α`, as one Rust type puts them
together. -/
inductive HandleType (α : Type) where
  | unit
  | single (tensor : α)
  | tuple (tensors : List α)
  deriving DecidableEq

namespace HandleType

variable {α β : Type}

/-- Puts the parts together, a single one without a tuple. -/
def ofList : List α → HandleType α
  | [] => .unit
  | [tensor] => .single tensor
  | tensors => .tuple tensors

def tensors : HandleType α → List α
  | .unit => []
  | .single tensor => [tensor]
  | .tuple tensors => tensors

def map (f : α → β) : HandleType α → HandleType β
  | .unit => .unit
  | .single tensor => .single (f tensor)
  | .tuple tensors => .tuple (tensors.map f)

/-- Maps a function that may fail over the parts. -/
def traverse (f : α → Option β) : HandleType α → Option (HandleType β)
  | .unit => some .unit
  | .single tensor => (f tensor).map .single
  | .tuple tensors => (tensors.mapM f).map .tuple

@[simp] theorem tensors_ofList (xs : List α) : (ofList xs).tensors = xs := by
  unfold ofList
  split <;> rfl

theorem traverse_ofList {f : α → Option β} {xs : List α} {ys : List β}
    (h : List.Forall₂ (fun x y => f x = some y) xs ys) :
    (ofList xs).traverse f = some (ofList ys) := by
  cases h with
  | nil => rfl
  | @cons x y _ _ hfirst hrest =>
      cases hrest with
      | nil => exact congrArg (Option.map single) hfirst
      | cons hsecond hrest =>
          exact congrArg (Option.map tuple)
            (option_mapM_eq_some_iff.mpr (.cons hfirst (.cons hsecond hrest)))

end HandleType

/-- `impl_graph_element!`: the element types of tensors. -/
def graphElement : String → Option ElementType
  | "bool" => some .bool
  | "f32" => some .f32
  | "f64" => some .f64
  | "i32" => some .i32
  | "i64" => some .i64
  | "::knok::half::f16" => some .f16
  | "::knok::half::bf16" => some .bf16
  | _ => none

/-- `impl_graph_tensor!`: the tensor types, with their ranks. -/
def graphTensor : String → Option ℕ
  | "Tensor0" => some 0
  | "Tensor1" => some 1
  | "Tensor2" => some 2
  | "Tensor3" => some 3
  | "Tensor4" => some 4
  | "Tensor5" => some 5
  | "Tensor6" => some 6
  | _ => none

/-- The descriptor of a tensor type, if it is one. -/
def TensorHandle.desc (handle : TensorHandle) : Option TensorType := do
  let rank ← graphTensor handle.name
  let elem ← graphElement handle.elem
  if handle.dims.length = rank then some ⟨elem, handle.dims⟩ else none

/-- The types that implement `Signature`: `impl_graph_tuple!` stops at twelve. -/
def HandleType.typed : HandleType TensorHandle → Option (HandleType TensorType)
  | .tuple tensors =>
      if tensors ≠ [] ∧ tensors.length ≤ 12 then (tuple tensors).traverse TensorHandle.desc
      else none
  | handle => handle.traverse TensorHandle.desc

/-- `Signature::DESCS`. -/
def HandleType.descs (handle : HandleType TensorHandle) : Option (List TensorType) :=
  handle.typed.map HandleType.tensors

/-- The two loops of `signatures_match`. -/
def signaturesMatch (expected actual : List TensorType) : Bool :=
  expected.length == actual.length && (expected.zip actual).all fun (e, a) =>
    e.elem == a.elem && e.shape.length == a.shape.length &&
      (e.shape.zip a.shape).all fun (d, d') => d == d'

theorem all_zip_beq_iff {α : Type} [DecidableEq α] {xs ys : List α} (h : xs.length = ys.length) :
    ((xs.zip ys).all fun (x, y) => x == y) = true ↔ xs = ys := by
  induction xs generalizing ys with
  | nil =>
      rw [List.length_eq_zero_iff.mp h.symm]
      simp
  | cons x xs ih =>
      cases ys with
      | nil => simp at h
      | cons y ys => simp [ih (Nat.succ.inj h)]

/-- Signatures match when they are equal. -/
theorem signaturesMatch_iff {expected actual : List TensorType} :
    signaturesMatch expected actual = true ↔ expected = actual := by
  have htype : ∀ e a : TensorType, (e.elem == a.elem && e.shape.length == a.shape.length &&
      (e.shape.zip a.shape).all fun (d, d') => d == d') = (e == a) := by
    rintro ⟨elem, shape⟩ ⟨elem', shape'⟩
    rw [Bool.eq_iff_iff]
    simp only [Bool.and_eq_true, beq_iff_eq, TensorType.mk.injEq]
    constructor
    · rintro ⟨⟨helem, hlen⟩, hshape⟩
      exact ⟨helem, (all_zip_beq_iff hlen).mp hshape⟩
    · rintro ⟨rfl, rfl⟩
      exact ⟨⟨rfl, rfl⟩, (all_zip_beq_iff rfl).mpr rfl⟩
  have hall : ((expected.zip actual).all fun (e, a) => e.elem == a.elem &&
      e.shape.length == a.shape.length && (e.shape.zip a.shape).all fun (d, d') => d == d') =
        (expected.zip actual).all fun (e, a) => e == a := by
    congr 1
    funext p
    exact htype p.1 p.2
  rw [signaturesMatch, Bool.and_eq_true, beq_iff_eq]
  constructor
  · rintro ⟨hlen, h⟩
    rw [hall] at h
    exact (all_zip_beq_iff hlen).mp h
  · rintro rfl
    exact ⟨rfl, hall ▸ (all_zip_beq_iff rfl).mpr rfl⟩

inductive GraphSignatureError where
  | input
  | output
  deriving DecidableEq

/-- `Graph::new`: the handle's types against the artifact. -/
def checkHandle (inputs outputs : List TensorType) (artifact : GraphArtifact) :
    Except GraphSignatureError GraphArtifact :=
  if !signaturesMatch inputs artifact.inputDescs then .error .input
  else if !signaturesMatch outputs artifact.outputDescs then .error .output
  else .ok artifact

/-- `Graph::new` accepts exactly the handles with the artifact's signature. -/
theorem checkHandle_eq_ok_iff {inputs outputs : List TensorType} {artifact : GraphArtifact} :
    checkHandle inputs outputs artifact = .ok artifact ↔
      inputs = artifact.inputDescs ∧ outputs = artifact.outputDescs := by
  unfold checkHandle
  simp only [← signaturesMatch_iff]
  cases signaturesMatch inputs artifact.inputDescs <;>
    cases signaturesMatch outputs artifact.outputDescs <;> simp

end Knok
