import Mathlib
import Knok.Artifacts
import Knok.Control.Checked
import Knok.TensorSerde

/-!
# Engines and models

Loading a graph takes the first archive for the engine's driver, hands it to the
runtime unless the engine has done so before, and resolves the graph's function.
Archives are static memory: their address and length stand for their bytes.  Whatever
the runtime answers to the archives it is handed, and in whatever order graphs are
loaded, a model's function comes from what the runtime made of the right archive, and no
archive is loaded twice (`models_resolved`).

A model runs on host tensors and either allocates its outputs or writes them over
existing ones.  All outputs are checked before any is written, and the two ways agree
(`runInto_agrees`).  The runtime itself is a parameter, `RuntimeApi`.
-/

namespace Knok

open Control
open Function (update)
open Host (TensorData TensorFault)

/-- `crate::Error`, and the panic of an index. -/
inductive HostError (ε : Type) where
  | runtime (error : ε)
  | shape (fault : TensorFault)
  | missingArtifactVariant (functionName driver : String)
  | missingDefaultArtifactVariant (functionName : String)
  | outputCountMismatch (expected actual : ℕ)
  | outputShapeMismatch (index : ℕ) (expected actual : List ℕ)
  | outOfBounds
  deriving DecidableEq

/-- The driver of `Engine::for_artifact`: the one of the first variant. -/
def driverForArtifact {ε : Type} (artifact : GraphArtifact) :
    Except (HostError ε) (Option Driver) :=
  match artifact.firstVariant with
  | none => .error (.missingDefaultArtifactVariant artifact.functionName)
  | some variant => .ok (Driver.fromName variant.backend.defaultDriver)

/-- The default driver of a backend has a name that is known, and runs it. -/
theorem fromName_defaultDriver (backend : IreeBackend) :
    ∃ driver, Driver.fromName backend.defaultDriver = some driver ∧
      backend.supportsDriver driver = true := by
  cases backend with
  | llvmCpu => exact ⟨.localTask, by decide, by decide⟩
  | metalSpirv => exact ⟨.metal, by decide, by decide⟩
  | vulkanSpirv => exact ⟨.vulkan, by decide, by decide⟩
  | cuda => exact ⟨.cuda, by decide, by decide⟩

/-- An engine for an artifact runs its first variant. -/
theorem variantForDriver_driverForArtifact {ε : Type} {artifact : GraphArtifact}
    {driver : Option Driver}
    (h : (driverForArtifact artifact : Except (HostError ε) _) = .ok driver) :
    ∃ d variant, driver = some d ∧ artifact.firstVariant = some variant ∧
      artifact.variantForDriver d = some variant := by
  unfold driverForArtifact at h
  cases hfirst : artifact.firstVariant with
  | none =>
      rw [hfirst] at h
      cases h
  | some variant =>
      obtain ⟨d, hname, hsupports⟩ := fromName_defaultDriver variant.backend
      rw [hfirst] at h
      obtain rfl := Except.ok.inj h
      refine ⟨d, variant, hname, rfl, ?_⟩
      obtain ⟨rest, hvariants⟩ := List.head?_eq_some_iff.mp hfirst
      rw [GraphArtifact.variantForDriver, hvariants]
      exact List.find?_cons_of_pos
        (p := fun v : GraphArtifactVariant => v.backend.supportsDriver d) hsupports

/-! ## Loading -/

/-- A runtime: what it answers when it is handed its n-th archive, and the archives it
has been handed so far. -/
structure Runtime (Program ε : Type) where
  answer : ℕ → StaticBytes → Except ε Program
  archives : List StaticBytes

namespace Runtime

variable {Program ε : Type} (runtime : Runtime Program ε)

/-- `Runtime::load_vmfb`. -/
def loadVmfb (archive : StaticBytes) : Except ε Program × Runtime Program ε :=
  (runtime.answer runtime.archives.length archive,
    { runtime with archives := runtime.archives ++ [archive] })

/-- The n-th archive that was handed over is `archive`, and the runtime made this
program of it. -/
def Loaded (n : ℕ) (archive : StaticBytes) (program : Program) : Prop :=
  runtime.archives[n]? = some archive ∧ runtime.answer n archive = .ok program

end Runtime

/-- An engine. -/
structure Engine (Program ε : Type) where
  driver : Driver
  runtime : Runtime Program ε
  modules : StaticBytes → Option Program

/-- `Engine::new`, with a runtime that answers so. -/
def Engine.new {Program ε : Type} (driver : Driver) (answer : ℕ → StaticBytes → Except ε Program) :
    Engine Program ε :=
  ⟨driver, ⟨answer, []⟩, fun _ => none⟩

/-- A loaded graph. -/
structure Model (Function : Type) where
  artifact : GraphArtifact
  function : Function

section Loading

variable {Program Function ε : Type} (functionOf : Program → String → Except ε Function)

/-- Resolves the function of a graph in its program. -/
def resolveFunction (artifact : GraphArtifact) (program : Program) :
    Except (HostError ε) (Model Function) :=
  match functionOf program artifact.functionName with
  | .error error => .error (.runtime error)
  | .ok function => .ok ⟨artifact, function⟩

namespace Engine

variable (engine : Engine Program ε)

/-- `Engine::load`. -/
def load (artifact : GraphArtifact) :
    Except (HostError ε) (Model Function) × Engine Program ε :=
  match artifact.variantForDriver engine.driver with
  | none =>
      (.error (.missingArtifactVariant artifact.functionName engine.driver.name), engine)
  | some variant =>
      match engine.modules variant.vmfb with
      | some program => (resolveFunction functionOf artifact program, engine)
      | none =>
          match engine.runtime.loadVmfb variant.vmfb with
          | (.error error, runtime) => (.error (.runtime error), { engine with runtime })
          | (.ok program, runtime) =>
              (resolveFunction functionOf artifact program,
                { engine with
                  runtime
                  modules := update engine.modules variant.vmfb (some program) })

/-- The cache holds what the runtime made of the archives, and it made something of
each of them at most once. -/
structure Cached : Prop where
  modules : ∀ archive program,
    engine.modules archive = some program ↔ ∃ n, engine.runtime.Loaded n archive program
  once : ∀ n n' archive program program', engine.runtime.Loaded n archive program →
    engine.runtime.Loaded n' archive program' → n = n'

end Engine

/-- An engine and the models it has returned, after one more load. -/
def loadNext (s : Engine Program ε × List (Model Function)) (artifact : GraphArtifact) :
    Engine Program ε × List (Model Function) :=
  match s.1.load functionOf artifact with
  | (.error _, engine) => (engine, s.2)
  | (.ok model, engine) => (engine, model :: s.2)

/-- The model is resolved in the program that the runtime made of the right archive. -/
def Model.Resolved (engine : Engine Program ε) (model : Model Function) : Prop :=
  ∃ variant n program, model.artifact.variantForDriver engine.driver = some variant ∧
    engine.runtime.Loaded n variant.vmfb program ∧
      functionOf program model.artifact.functionName = .ok model.function

/-- One more archive has been handed over at most. -/
structure Engine.Extends (engine engine' : Engine Program ε) : Prop where
  driver : engine'.driver = engine.driver
  answer : engine'.runtime.answer = engine.runtime.answer
  archives : engine.runtime.archives <+: engine'.runtime.archives

variable {functionOf}

theorem resolveFunction_eq_ok_iff {artifact : GraphArtifact} {program : Program}
    {model : Model Function} :
    resolveFunction functionOf artifact program = .ok model ↔
      model.artifact = artifact ∧
        functionOf program artifact.functionName = .ok model.function := by
  unfold resolveFunction
  split
  · next error herror => simp [herror]
  · next function hfunction =>
    rw [Except.ok.injEq, hfunction, Except.ok.injEq]
    constructor
    · rintro rfl
      exact ⟨rfl, rfl⟩
    · rintro ⟨rfl, rfl⟩
      rfl

namespace Runtime

variable {runtime : Runtime Program ε} {archive : StaticBytes}

/-- What a runtime has loaded after one more archive. -/
theorem loaded_loadVmfb_iff {n : ℕ} {archive' : StaticBytes} {program : Program} :
    (runtime.loadVmfb archive).2.Loaded n archive' program ↔
      runtime.Loaded n archive' program ∨
        n = runtime.archives.length ∧ archive' = archive ∧
          runtime.answer n archive = .ok program := by
  show (runtime.archives ++ [archive])[n]? = some archive' ∧ _ ↔ _
  unfold Loaded
  rcases Nat.lt_trichotomy n runtime.archives.length with hlt | rfl | hgt
  · rw [List.getElem?_append_left hlt]
    simp [hlt.ne, loadVmfb]
  · rw [List.getElem?_concat_length]
    simp only [loadVmfb, Option.some.injEq, List.getElem?_eq_none le_rfl, reduceCtorEq, false_and,
      false_or, true_and]
    constructor
    · rintro ⟨rfl, h⟩
      exact ⟨rfl, h⟩
    · rintro ⟨rfl, h⟩
      exact ⟨rfl, h⟩
  · rw [List.getElem?_eq_none (by simp; omega), List.getElem?_eq_none (by omega)]
    simp [hgt.ne']

theorem Loaded.program_eq {n n' : ℕ} {program program' : Program}
    (h : runtime.Loaded n archive program) (h' : runtime.Loaded n' archive program')
    (heq : n = n') : program = program' := by
  subst heq
  exact Except.ok.inj (h.2.symm.trans h'.2)

end Runtime

/-- What loading does: it fails, or it finds the program of the archive. -/
theorem Engine.load_cases (functionOf : Program → String → Except ε Function)
    (engine : Engine Program ε) (artifact : GraphArtifact) :
    (∃ error, engine.load functionOf artifact = (.error error, engine)) ∨
      ∃ variant, artifact.variantForDriver engine.driver = some variant ∧
        ((∃ program, engine.modules variant.vmfb = some program ∧
          engine.load functionOf artifact =
            (resolveFunction functionOf artifact program, engine)) ∨
        engine.modules variant.vmfb = none ∧
          ((∃ error,
            engine.runtime.answer engine.runtime.archives.length variant.vmfb = .error error ∧
            engine.load functionOf artifact = (.error (.runtime error),
              { engine with runtime := (engine.runtime.loadVmfb variant.vmfb).2 })) ∨
          ∃ program,
            engine.runtime.answer engine.runtime.archives.length variant.vmfb = .ok program ∧
            engine.load functionOf artifact = (resolveFunction functionOf artifact program,
              { engine with
                runtime := (engine.runtime.loadVmfb variant.vmfb).2
                modules := update engine.modules variant.vmfb (some program) }))) := by
  unfold Engine.load
  cases hvariant : artifact.variantForDriver engine.driver with
  | none => exact .inl ⟨_, rfl⟩
  | some variant =>
      refine .inr ⟨variant, rfl, ?_⟩
      dsimp only
      cases hmodule : engine.modules variant.vmfb with
      | some program => exact .inl ⟨program, rfl, rfl⟩
      | none =>
          refine .inr ⟨rfl, ?_⟩
          unfold Runtime.loadVmfb
          cases hanswer : engine.runtime.answer engine.runtime.archives.length variant.vmfb with
          | error error => exact .inl ⟨error, rfl, rfl⟩
          | ok program => exact .inr ⟨program, rfl, rfl⟩

namespace Engine

variable {engine : Engine Program ε} {archive : StaticBytes}

/-- An archive that the runtime refuses keeps the cache in order. -/
theorem Cached.refuse (h : engine.Cached) {error : ε}
    (hanswer : engine.runtime.answer engine.runtime.archives.length archive = .error error) :
    Engine.Cached { engine with runtime := (engine.runtime.loadVmfb archive).2 } := by
  have hloaded : ∀ n archive' program,
      (engine.runtime.loadVmfb archive).2.Loaded n archive' program ↔
        engine.runtime.Loaded n archive' program := by
    intro n archive' program
    rw [Runtime.loaded_loadVmfb_iff, or_iff_left]
    rintro ⟨rfl, -, hok⟩
    rw [hanswer] at hok
    cases hok
  constructor
  · intro archive' program
    simp only [hloaded]
    exact h.modules archive' program
  · intro n n' archive' program program' hn hn'
    exact h.once n n' archive' program program' ((hloaded ..).mp hn) ((hloaded ..).mp hn')

/-- A new archive keeps the cache in order. -/
theorem Cached.insert (h : engine.Cached) {program : Program}
    (hnone : engine.modules archive = none)
    (hanswer : engine.runtime.answer engine.runtime.archives.length archive = .ok program) :
    Engine.Cached { engine with
      runtime := (engine.runtime.loadVmfb archive).2
      modules := update engine.modules archive (some program) } := by
  have hnew : ∀ n program', ¬ engine.runtime.Loaded n archive program' := by
    intro n program' hloaded
    rw [(h.modules archive program').mpr ⟨n, hloaded⟩] at hnone
    cases hnone
  constructor
  · intro archive' program'
    simp only [Runtime.loaded_loadVmfb_iff]
    by_cases heq : archive' = archive
    · subst heq
      rw [Function.update_self, Option.some.injEq]
      constructor
      · rintro rfl
        exact ⟨_, .inr ⟨rfl, rfl, hanswer⟩⟩
      · rintro ⟨n, hold | ⟨rfl, -, hok⟩⟩
        · exact absurd hold (hnew n program')
        · exact Except.ok.inj (hanswer.symm.trans hok)
    · rw [Function.update_of_ne heq, h.modules]
      simp [heq]
  · intro n n' archive' program' program'' hn hn'
    rcases Runtime.loaded_loadVmfb_iff.mp hn with hold | ⟨rfl, rfl, -⟩ <;>
      rcases Runtime.loaded_loadVmfb_iff.mp hn' with hold' | ⟨hn', harchive, -⟩
    · exact h.once _ _ _ _ _ hold hold'
    · exact absurd (harchive ▸ hold) (hnew _ _)
    · exact absurd hold' (hnew _ _)
    · exact hn'.symm

theorem Extends.refl (engine : Engine Program ε) : engine.Extends engine :=
  ⟨rfl, rfl, List.prefix_rfl⟩

theorem Extends.trans {engine engine' engine'' : Engine Program ε} (h : engine.Extends engine')
    (h' : engine'.Extends engine'') : engine.Extends engine'' :=
  ⟨h'.driver.trans h.driver, h'.answer.trans h.answer, h.archives.trans h'.archives⟩

theorem Extends.loaded {engine engine' : Engine Program ε} (h : engine.Extends engine') {n : ℕ}
    {archive : StaticBytes} {program : Program}
    (hloaded : engine.runtime.Loaded n archive program) :
    engine'.runtime.Loaded n archive program := by
  obtain ⟨hn, -⟩ := List.getElem?_eq_some_iff.mp hloaded.1
  refine ⟨?_, by rw [h.answer, hloaded.2]⟩
  obtain ⟨later, hlater⟩ := h.archives
  rw [← hlater, List.getElem?_append_left hn, hloaded.1]

end Engine

/-- Models stay resolved. -/
theorem Model.Resolved.mono {engine engine' : Engine Program ε} {model : Model Function}
    (h : model.Resolved functionOf engine) (hextends : engine.Extends engine') :
    model.Resolved functionOf engine' := by
  obtain ⟨variant, n, program, hvariant, hloaded, hfunction⟩ := h
  exact ⟨variant, n, program, by rw [hextends.driver, hvariant], hextends.loaded hloaded, hfunction⟩

/-- **One load** keeps the cache in order, and what it returns is resolved. -/
theorem Engine.load_resolved (functionOf : Program → String → Except ε Function)
    {engine : Engine Program ε} (hcached : engine.Cached) (artifact : GraphArtifact) :
    engine.Extends (engine.load functionOf artifact).2 ∧
      (engine.load functionOf artifact).2.Cached ∧
        ∀ model, (engine.load functionOf artifact).1 = .ok model →
          model.Resolved functionOf (engine.load functionOf artifact).2 := by
  -- an archive that is handed over is the last one
  have hextends : ∀ (archive : StaticBytes) (modules : StaticBytes → Option Program),
      engine.Extends { engine with
        runtime := (engine.runtime.loadVmfb archive).2
        modules := modules } := fun archive _ => ⟨rfl, rfl, List.prefix_append _ _⟩
  rcases engine.load_cases functionOf artifact with ⟨error, h⟩ | ⟨variant, hvariant,
    ⟨program, hprogram, h⟩ | ⟨hnone, ⟨error, hanswer, h⟩ | ⟨program, hanswer, h⟩⟩⟩
  · rw [h]
    exact ⟨.refl engine, hcached, fun _ hok => by cases hok⟩
  · rw [h]
    obtain ⟨n, hloaded⟩ := (hcached.modules _ _).mp hprogram
    refine ⟨.refl engine, hcached, fun model hok => ?_⟩
    obtain ⟨rfl, hfunction⟩ := resolveFunction_eq_ok_iff.mp hok
    exact ⟨variant, n, program, hvariant, hloaded, hfunction⟩
  · rw [h]
    exact ⟨hextends _ _, hcached.refuse hanswer, fun _ hok => by cases hok⟩
  · rw [h]
    refine ⟨hextends _ _, hcached.insert hnone hanswer, fun model hok => ?_⟩
    obtain ⟨rfl, hfunction⟩ := resolveFunction_eq_ok_iff.mp hok
    exact ⟨variant, _, program, hvariant,
      Runtime.loaded_loadVmfb_iff.mpr (.inr ⟨rfl, rfl, hanswer⟩), hfunction⟩

theorem loadNext_resolved {s : Engine Program ε × List (Model Function)} (hcached : s.1.Cached)
    (hmodels : ∀ model ∈ s.2, model.Resolved functionOf s.1) (artifact : GraphArtifact) :
    s.1.Extends (loadNext functionOf s artifact).1 ∧ (loadNext functionOf s artifact).1.Cached ∧
      ∀ model ∈ (loadNext functionOf s artifact).2,
        model.Resolved functionOf (loadNext functionOf s artifact).1 := by
  obtain ⟨hextends, hcached', hmodel⟩ := Engine.load_resolved functionOf hcached artifact
  have hold : ∀ model ∈ s.2, model.Resolved functionOf (s.1.load functionOf artifact).2 :=
    fun model hmem => (hmodels model hmem).mono hextends
  unfold loadNext
  rcases hload : s.1.load functionOf artifact with ⟨result, engine⟩
  rw [hload] at hextends hcached' hmodel hold
  cases result with
  | error error => exact ⟨hextends, hcached', hold⟩
  | ok model => exact ⟨hextends, hcached', List.forall_mem_cons.mpr ⟨hmodel model rfl, hold⟩⟩

/-- **Every model is resolved in the right archive, and none is loaded twice.**
Whatever the runtime answers to the archives it is handed, and whatever graphs are
loaded, every model's function comes from the program that the runtime made of the
first archive for the engine's driver, and the runtime makes a program of no archive
twice, so that models of one archive share it. -/
theorem models_resolved (driver : Driver) (answer : ℕ → StaticBytes → Except ε Program)
    (artifacts : List GraphArtifact) :
    let s := artifacts.foldl (loadNext functionOf) (Engine.new driver answer, [])
    s.1.driver = driver ∧ s.1.runtime.answer = answer ∧
      (∀ n n' archive program program', s.1.runtime.Loaded n archive program →
        s.1.runtime.Loaded n' archive program' → n = n') ∧
      ∀ model ∈ s.2, model.Resolved functionOf s.1 := by
  have h : ∀ s : Engine Program ε × List (Model Function), s.1.Cached →
      (∀ model ∈ s.2, model.Resolved functionOf s.1) →
      s.1.Extends (artifacts.foldl (loadNext functionOf) s).1 ∧
        (artifacts.foldl (loadNext functionOf) s).1.Cached ∧
          ∀ model ∈ (artifacts.foldl (loadNext functionOf) s).2,
            model.Resolved functionOf (artifacts.foldl (loadNext functionOf) s).1 := by
    induction artifacts with
    | nil => exact fun s hcached hmodels => ⟨.refl s.1, hcached, hmodels⟩
    | cons artifact artifacts ih =>
        intro s hcached hmodels
        obtain ⟨hextends, hcached, hmodels⟩ := loadNext_resolved hcached hmodels artifact
        rw [List.foldl_cons]
        obtain ⟨hextends', hrest⟩ := ih _ hcached hmodels
        exact ⟨hextends.trans hextends', hrest⟩
  have hnew : (Engine.new driver answer).Cached :=
    ⟨fun _ _ => by simp [Engine.new, Runtime.Loaded], fun _ _ _ _ _ h => by cases h.1⟩
  obtain ⟨hextends, hcached, hmodels⟩ := h (Engine.new driver answer, []) hnew fun _ h => by cases h
  exact ⟨hextends.driver, hextends.answer, hcached.once, hmodels⟩

end Loading

/-! ## Running -/

/-- What the runtime does with values.  Reading into a target leaves something in the
target also when it fails. -/
structure RuntimeApi (Value Buffer Function T ε : Type) where
  bufferView : TensorType → List T → Except ε Value
  invoke : Function → List Value → Except ε (List Value)
  bufferFromValue : ElementType → Value → Except ε Buffer
  shape : Buffer → List ℕ
  read : Buffer → Except ε (List T)
  readInto : Buffer → List T → Except ε Unit × List T

section Running

variable {Value Buffer Function T ε : Type} (api : RuntimeApi Value Buffer Function T ε)

namespace RuntimeApi

/-- A call of the runtime crate, with its error converted by `?`. -/
def call {α : Type} : Except ε α → Except (HostError ε) α
  | .ok a => .ok a
  | .error error => .error (.runtime error)

/-- `values[index]`. -/
def valueAt (values : List Value) (index : ℕ) : Except (HostError ε) Value :=
  match values[index]? with
  | some value => .ok value
  | none => .error .outOfBounds

/-- `Outputs::check_count`. -/
def checkCount (values : List Value) (expected : ℕ) : Except (HostError ε) Unit :=
  if values.length ≠ expected then .error (.outputCountMismatch expected values.length)
  else .ok ()

/-- `Outputs::check_shape`. -/
def checkShape (values : List Value) (index : ℕ) (ty : TensorType) :
    Except (HostError ε) Unit := do
  let value ← valueAt values index
  let output ← call (api.bufferFromValue ty.elem value)
  if api.shape output ≠ ty.shape then
    throw (.outputShapeMismatch index ty.shape (api.shape output))

/-- `check_shape` at each position from `index` on. -/
def checkShapes (values : List Value) : ℕ → List TensorType → Except (HostError ε) Unit
  | _, [] => .ok ()
  | index, ty :: types => do
      api.checkShape values index ty
      checkShapes values (index + 1) types

/-- `RawGraphOutput::validate_raw_outputs`. -/
def validateRawOutputs (outputs : HandleType TensorType) (values : List Value) :
    Except (HostError ε) Unit := do
  checkCount values outputs.tensors.length
  api.checkShapes values 0 outputs.tensors

/-- `T::from_vec(data)`. -/
def fromVec (ty : TensorType) (data : List T) : Except (HostError ε) (TensorData T) :=
  match TensorData.fromVec data ty.shape with
  | .ok tensor => .ok tensor
  | .error fault => .error (.shape fault)

/-- `Outputs::one`. -/
def one (ty : TensorType) (values : List Value) : Except (HostError ε) (List T) := do
  let some value := values.getLast? | throw .outOfBounds
  let buffer ← call (api.bufferFromValue ty.elem value)
  call (api.read buffer)

/-- `Outputs::read`. -/
def readAt (ty : TensorType) (values : List Value) (index : ℕ) :
    Except (HostError ε) (List T) := do
  let value ← valueAt values index
  let buffer ← call (api.bufferFromValue ty.elem value)
  call (api.read buffer)

/-- Reads and builds the tensors of a tuple, from `index` on. -/
def readTuple (values : List Value) :
    ℕ → List TensorType → Except (HostError ε) (List (TensorData T))
  | _, [] => .ok []
  | index, ty :: types => do
      let tensor ← fromVec ty (← api.readAt ty values index)
      return tensor :: (← readTuple values (index + 1) types)

/-- `RawGraphOutput::read_raw_outputs`. -/
def readRawOutputs (values : List Value) :
    HandleType TensorType → Except (HostError ε) (List (TensorData T))
  | .unit => .ok []
  | .single ty => do return [← fromVec ty (← api.one ty values)]
  | .tuple types => api.readTuple values 0 types

/-- `Outputs::read_into`, with the target afterwards. -/
def readIntoAt (ty : TensorType) (values : List Value) (index : ℕ) (target : TensorData T) :
    Except (HostError ε) Unit × TensorData T :=
  match (do call (api.bufferFromValue ty.elem (← valueAt values index)) :
      Except (HostError ε) Buffer) with
  | .error error => (.error error, target)
  | .ok buffer =>
      let (result, data) := api.readInto buffer target.data
      (call result, ⟨data⟩)

/-- Reads into the tensors from `index` on, up to the first that fails. -/
def readIntoTensors (values : List Value) :
    ℕ → List TensorType → List (TensorData T) → Except (HostError ε) Unit × List (TensorData T)
  | index, ty :: types, target :: targets =>
      match api.readIntoAt ty values index target with
      | (.error error, target) => (.error error, target :: targets)
      | (.ok (), target) =>
          let (result, targets) := readIntoTensors values (index + 1) types targets
          (result, target :: targets)
  | _, _, targets => (.ok (), targets)

/-- `RawGraphOutput::read_raw_outputs_into`. -/
def readRawOutputsInto (values : List Value) (outputs : HandleType TensorType)
    (targets : List (TensorData T)) : Except (HostError ε) Unit × List (TensorData T) :=
  api.readIntoTensors values 0 outputs.tensors targets

end RuntimeApi

namespace Model

variable (model : Model Function) (outputs : HandleType TensorType)

/-- `Model::invoke`: the inputs with their types become values, and the answer is
checked. -/
def invoke (inputs : List (TensorType × TensorData T)) : Except (HostError ε) (List Value) := do
  let values ← inputs.mapM fun input => RuntimeApi.call (api.bufferView input.1 input.2.data)
  let outputValues ← RuntimeApi.call (api.invoke model.function values)
  api.validateRawOutputs outputs outputValues
  return outputValues

/-- `Model::run`. -/
def run (inputs : List (TensorType × TensorData T)) :
    Except (HostError ε) (List (TensorData T)) := do
  api.readRawOutputs (← model.invoke api outputs inputs) outputs

/-- `Model::run_into`, with the outputs afterwards. -/
def runInto (inputs : List (TensorType × TensorData T)) (targets : List (TensorData T)) :
    Except (HostError ε) Unit × List (TensorData T) :=
  match model.invoke api outputs inputs with
  | .error error => (.error error, targets)
  | .ok values => api.readRawOutputsInto values outputs targets

end Model

/-- What the runtime crate promises: a buffer has as many elements as its shape says,
and reading into a target of that many elements gives what reading gives. -/
structure RuntimeApi.Lawful : Prop where
  read_length : ∀ buffer data, api.read buffer = .ok data → data.length = (api.shape buffer).prod
  readInto_of_ok : ∀ buffer data target, api.read buffer = .ok data →
    target.length = data.length → api.readInto buffer target = (.ok (), data)
  readInto_of_error : ∀ buffer error target, api.read buffer = .error error →
    target.length = (api.shape buffer).prod → (api.readInto buffer target).1 = .error error

/-- The value is a buffer of the tensor type. -/
def RuntimeApi.HasType (ty : TensorType) (value : Value) : Prop :=
  ∃ buffer, api.bufferFromValue ty.elem value = .ok buffer ∧ api.shape buffer = ty.shape

variable {api}

namespace RuntimeApi

theorem call_eq_ok_iff {α : Type} {result : Except ε α} {a : α} :
    call result = .ok a ↔ result = .ok a := by
  cases result <;> simp [call]

theorem mapM_call_eq_ok_iff {α β : Type} {f : α → Except ε β} {as : List α} {bs : List β} :
    as.mapM (fun a => call (f a)) = .ok bs ↔ as.mapM f = .ok bs := by
  induction as generalizing bs with
  | nil => simp only [List.mapM_nil, except_pure_eq_ok_iff]
  | cons a as ih =>
      simp only [List.mapM_cons, except_bind_eq_ok_iff, except_pure_eq_ok_iff, call_eq_ok_iff, ih]

theorem valueAt_eq_ok_iff {values : List Value} {index : ℕ} {value : Value} :
    (valueAt values index : Except (HostError ε) Value) = .ok value ↔
      values[index]? = some value := by
  unfold valueAt
  split <;> simp_all

theorem checkShape_eq_ok_iff {values : List Value} {index : ℕ} {ty : TensorType} :
    api.checkShape values index ty = .ok () ↔
      ∃ value, values[index]? = some value ∧ api.HasType ty value := by
  unfold checkShape HasType
  simp only [except_bind_eq_ok_iff, valueAt_eq_ok_iff, call_eq_ok_iff]
  constructor
  · rintro ⟨value, hvalue, buffer, hbuffer, hshape⟩
    by_cases heq : api.shape buffer = ty.shape
    · exact ⟨value, hvalue, buffer, hbuffer, heq⟩
    · simp [heq] at hshape
  · rintro ⟨value, hvalue, buffer, hbuffer, heq⟩
    exact ⟨value, hvalue, buffer, hbuffer, by simp [heq]⟩

theorem checkShapes_cons_eq_ok_iff {values : List Value} {index : ℕ} {ty : TensorType}
    {types : List TensorType} :
    api.checkShapes values index (ty :: types) = .ok () ↔
      api.checkShape values index ty = .ok () ∧
        api.checkShapes values (index + 1) types = .ok () := by
  rw [checkShapes, except_bind_eq_ok_iff]
  constructor
  · rintro ⟨⟨⟩, hfirst, hrest⟩
    exact ⟨hfirst, hrest⟩
  · rintro ⟨hfirst, hrest⟩
    exact ⟨(), hfirst, hrest⟩

/-- The values from `index` on have the types that were checked. -/
theorem hasType_of_checkShapes {values : List Value} :
    ∀ {types : List TensorType} {index : ℕ}, values.length = index + types.length →
      api.checkShapes values index types = .ok () →
      List.Forall₂ api.HasType types (values.drop index) := by
  intro types
  induction types with
  | nil =>
      intro index hlen _
      rw [List.drop_of_length_le (by simpa using hlen.le)]
      exact .nil
  | cons ty types ih =>
      intro index hlen h
      obtain ⟨hfirst, hrest⟩ := checkShapes_cons_eq_ok_iff.mp h
      obtain ⟨value, hvalue, htype⟩ := checkShape_eq_ok_iff.mp hfirst
      rw [List.drop_eq_getElem?_toList_append, hvalue]
      have hrestLen : values.length = index + 1 + types.length := by
        rw [List.length_cons] at hlen
        omega
      exact .cons htype (ih hrestLen hrest)

/-- **Validation** accepts exactly as many values as there are outputs, each of its type. -/
theorem hasType_of_validateRawOutputs {outputs : HandleType TensorType} {values : List Value}
    (h : api.validateRawOutputs outputs values = .ok ()) :
    List.Forall₂ api.HasType outputs.tensors values := by
  unfold validateRawOutputs checkCount at h
  obtain ⟨⟨⟩, hcount, hshapes⟩ := except_bind_eq_ok_iff.mp h
  by_cases hlen : values.length = outputs.tensors.length
  · exact hasType_of_checkShapes (by rw [hlen, Nat.zero_add]) hshapes
  · simp [hlen] at hcount

/-- A tensor has one element for each position of its shape. -/
def Sized (ty : TensorType) (target : TensorData T) : Prop := target.data.length = ty.shape.prod

/-- What writing over tensors has to do with building them: it fails in the same way, or
leaves what would have been built. -/
def Agrees {α : Type} (written : Except (HostError ε) Unit × α) (built : Except (HostError ε) α) :
    Prop :=
  written.1 = built.map (fun _ => ()) ∧ ∀ tensors, built = .ok tensors → written.2 = tensors

theorem fromVec_of_length {ty : TensorType} (hsize : ty.shape.prod < 2 ^ 64) {data : List T}
    (hlen : data.length = ty.shape.prod) :
    (fromVec ty data : Except (HostError ε) (TensorData T)) = .ok ⟨data⟩ := by
  unfold fromVec TensorData.fromVec
  rw [usizeProduct_eq, Nat.mod_eq_of_lt hsize]
  simp [hlen]

theorem agrees_error_iff {α : Type} {written : Except (HostError ε) Unit × α}
    {error : HostError ε} : Agrees written (.error error) ↔ written.1 = .error error := by
  constructor
  · exact fun h => h.1
  · exact fun h => ⟨h, fun _ hbuilt => by cases hbuilt⟩

theorem agrees_ok_iff {α : Type} {written : Except (HostError ε) Unit × α} {built : α} :
    Agrees written (.ok built) ↔ written = (.ok (), built) := by
  constructor
  · exact fun h => Prod.ext h.1 (h.2 built rfl)
  · rintro rfl
    exact ⟨rfl, fun _ hbuilt => Except.ok.inj hbuilt⟩

/-- The two ways agree at one output that was checked. -/
theorem readIntoAt_agrees (hapi : api.Lawful) {values : List Value} {index : ℕ} {ty : TensorType}
    (hcheck : api.checkShape values index ty = .ok ()) (hsize : ty.shape.prod < 2 ^ 64)
    {target : TensorData T} (htarget : Sized ty target) :
    Agrees (api.readIntoAt ty values index target)
      (do fromVec ty (← api.readAt ty values index)) := by
  obtain ⟨value, hvalue, buffer, hbuffer, hshape⟩ := checkShape_eq_ok_iff.mp hcheck
  have hvalueAt : (valueAt values index : Except (HostError ε) Value) = .ok value :=
    valueAt_eq_ok_iff.mpr hvalue
  have hread : api.readAt ty values index = call (api.read buffer) := by
    unfold readAt
    rw [hvalueAt]
    change (do let buffer ← call (api.bufferFromValue ty.elem value); call (api.read buffer)) = _
    rw [hbuffer]
    rfl
  have hwrite : api.readIntoAt ty values index target =
      (call (api.readInto buffer target.data).1, ⟨(api.readInto buffer target.data).2⟩) := by
    have hfound : (do call (api.bufferFromValue ty.elem (← valueAt values index)) :
        Except (HostError ε) Buffer) = .ok buffer :=
      except_bind_eq_ok_iff.mpr ⟨value, hvalueAt, call_eq_ok_iff.mpr hbuffer⟩
    rw [readIntoAt, hfound]
  rw [hread, hwrite]
  cases hdata : api.read buffer with
  | error error =>
      have hfails := hapi.readInto_of_error buffer error target.data hdata
        (by rw [hshape]; exact htarget)
      rw [hfails]
      exact agrees_error_iff.mpr rfl
  | ok data =>
      have hlen : data.length = ty.shape.prod := by rw [hapi.read_length buffer data hdata, hshape]
      have hbuilt : (do fromVec ty (← call (.ok data)) : Except (HostError ε) (TensorData T)) =
          .ok ⟨data⟩ := fromVec_of_length hsize hlen
      rw [hbuilt, hapi.readInto_of_ok buffer data target.data hdata (htarget.trans hlen.symm)]
      exact agrees_ok_iff.mpr rfl

/-- The two ways agree on tuples. -/
theorem readIntoTensors_agrees (hapi : api.Lawful) {values : List Value} {types : List TensorType}
    {targets : List (TensorData T)} (htargets : List.Forall₂ Sized types targets) :
    ∀ {index : ℕ}, api.checkShapes values index types = .ok () →
      (∀ ty ∈ types, ty.shape.prod < 2 ^ 64) →
      Agrees (api.readIntoTensors values index types targets)
        (api.readTuple values index types) := by
  induction htargets with
  | nil => exact fun _ _ => agrees_ok_iff.mpr rfl
  | @cons ty target types targets htarget _ ih =>
      intro index hcheck hsizes
      obtain ⟨hfirst, hrest⟩ := checkShapes_cons_eq_ok_iff.mp hcheck
      have hone := readIntoAt_agrees hapi hfirst (hsizes ty List.mem_cons_self) htarget
      have hothers := ih hrest fun ty hty => hsizes ty (List.mem_cons_of_mem _ hty)
      have hsplit : api.readTuple values index (ty :: types) = (do
          let tensor ← (do fromVec ty (← api.readAt ty values index))
          return tensor :: (← api.readTuple values (index + 1) types)) := by
        rw [readTuple, bind_assoc]
      rw [hsplit, readIntoTensors]
      cases hbuilt : (do fromVec ty (← api.readAt ty values index) :
          Except (HostError ε) (TensorData T)) with
      | error error =>
          rw [hbuilt, agrees_error_iff] at hone
          rcases hwritten : api.readIntoAt ty values index target with ⟨result, target'⟩
          rw [hwritten] at hone
          obtain rfl := hone
          exact agrees_error_iff.mpr rfl
      | ok tensor =>
          rw [hbuilt, agrees_ok_iff] at hone
          rw [hone]
          cases hbuilt' : api.readTuple values (index + 1) types with
          | error error =>
              rw [hbuilt', agrees_error_iff] at hothers
              exact agrees_error_iff.mpr hothers
          | ok tensors =>
              rw [hbuilt', agrees_ok_iff] at hothers
              rw [hothers]
              exact agrees_ok_iff.mpr rfl

/-- The two ways agree on values that were checked. -/
theorem readRawOutputsInto_agrees (hapi : api.Lawful) {outputs : HandleType TensorType}
    (hsizes : ∀ ty ∈ outputs.tensors, ty.shape.prod < 2 ^ 64) {targets : List (TensorData T)}
    (htargets : List.Forall₂ Sized outputs.tensors targets) {values : List Value}
    (hvalid : api.validateRawOutputs outputs values = .ok ()) :
    Agrees (api.readRawOutputsInto values outputs targets) (api.readRawOutputs values outputs) := by
  have hlen := (hasType_of_validateRawOutputs hvalid).length_eq
  obtain ⟨⟨⟩, -, hshapes⟩ := except_bind_eq_ok_iff.mp hvalid
  have htuple := readIntoTensors_agrees hapi htargets hshapes hsizes
  cases outputs with
  | unit => exact htuple
  | tuple types => exact htuple
  | single ty =>
      -- the last value is the first
      obtain ⟨value, rfl⟩ := List.length_eq_one_iff.mp hlen.symm
      exact htuple

end RuntimeApi

/-- **Writing over outputs agrees with building them.**  On outputs of the right sizes,
`run_into` fails exactly as `run` does, and when `run` returns tensors, the outputs are
these tensors afterwards.  Unless the function returned, for these inputs, as many values
as there are outputs, each of the output's type, the outputs are as they were. -/
theorem Model.runInto_agrees (hapi : api.Lawful) (model : Model Function)
    (outputs : HandleType TensorType) (hsizes : ∀ ty ∈ outputs.tensors, ty.shape.prod < 2 ^ 64)
    (inputs : List (TensorType × TensorData T)) (targets : List (TensorData T))
    (htargets : List.Forall₂ RuntimeApi.Sized outputs.tensors targets) :
    RuntimeApi.Agrees (model.runInto api outputs inputs targets) (model.run api outputs inputs) ∧
      ((model.runInto api outputs inputs targets).2 = targets ∨
        ∃ arguments values,
          inputs.mapM (fun input => api.bufferView input.1 input.2.data) = .ok arguments ∧
            api.invoke model.function arguments = .ok values ∧
              List.Forall₂ api.HasType outputs.tensors values) := by
  unfold Model.runInto Model.run
  cases hinvoke : model.invoke api outputs inputs with
  | error error => exact ⟨RuntimeApi.agrees_error_iff.mpr rfl, .inl rfl⟩
  | ok values =>
      unfold Model.invoke at hinvoke
      simp only [except_bind_eq_ok_iff, except_pure_eq_ok_iff] at hinvoke
      obtain ⟨arguments, hviews, _, hcall, ⟨⟩, hvalid, rfl⟩ := hinvoke
      exact ⟨RuntimeApi.readRawOutputsInto_agrees hapi hsizes htargets hvalid,
        .inr ⟨arguments, _, RuntimeApi.mapM_call_eq_ok_iff.mp hviews,
          RuntimeApi.call_eq_ok_iff.mp hcall, RuntimeApi.hasType_of_validateRawOutputs hvalid⟩⟩

end Running

/-! ## A runtime of integers -/

/-- A buffer of a fixed shape. -/
structure IntBuffer where
  elem : ElementType
  shape : List ℕ
  data : List ℤ
  length_eq : data.length = shape.prod

/-- A runtime whose values are buffers of integers and whose functions compute on them. -/
def intRuntime : RuntimeApi IntBuffer IntBuffer (List IntBuffer → List IntBuffer) ℤ String where
  bufferView ty data :=
    if h : data.length = ty.shape.prod then .ok ⟨ty.elem, ty.shape, data, h⟩
    else .error "the data does not fill the shape"
  invoke function values := .ok (function values)
  bufferFromValue elem value :=
    if value.elem = elem then .ok value else .error "the value has another element type"
  shape := IntBuffer.shape
  read buffer := .ok buffer.data
  readInto buffer target :=
    if target.length = buffer.data.length then (.ok (), buffer.data)
    else (.error "the target has another length", target)

theorem lawful_intRuntime : intRuntime.Lawful where
  read_length buffer data h := by
    cases h
    exact buffer.length_eq
  readInto_of_ok buffer data target h hlen := by
    cases h
    exact if_pos hlen
  readInto_of_error buffer error target h _ := by cases h

/-- A model that exchanges a pair and a scalar. -/
def exchangeModel : Model (List IntBuffer → List IntBuffer) :=
  ⟨⟨"knok.exchange", [⟨.i64, [2]⟩, ⟨.i32, []⟩], [⟨.i32, []⟩, ⟨.i64, [2]⟩], []⟩, List.reverse⟩

theorem Model.runInto_agrees_exchange :
    RuntimeApi.Agrees
        (exchangeModel.runInto intRuntime (.tuple [⟨.i32, []⟩, ⟨.i64, [2]⟩])
          [(⟨.i64, [2]⟩, ⟨[3, 4]⟩), (⟨.i32, []⟩, ⟨[5]⟩)] [⟨[0]⟩, ⟨[0, 0]⟩])
        (.ok [⟨[5]⟩, ⟨[3, 4]⟩]) := by
  have h := (Model.runInto_agrees lawful_intRuntime exchangeModel
    (.tuple [⟨.i32, []⟩, ⟨.i64, [2]⟩]) (by decide)
    [(⟨.i64, [2]⟩, ⟨[3, 4]⟩), (⟨.i32, []⟩, ⟨[5]⟩)] [⟨[0]⟩, ⟨[0, 0]⟩]
    (.cons rfl (.cons rfl .nil))).1
  exact h

end Knok
