import Mathlib
import Knok.Autograd.ValueAndGrad
import Knok.CacheProtocol
import Knok.Codegen
import Knok.CompilerFlags
import Knok.Control.Stateful

/-!
# Emission

A build script compiles its graphs one after the other, writes each archive into
`OUT_DIR` and collects the text of the modules that embed the archives; the wrapper file
with all modules is written last.  Any step can fail, and a write that fails leaves
anything in its file.  A compilation can read and change the files of the compiler cache,
which by default lies in `OUT_DIR` too.  The three entry points, for graphs, for gradients
and for imported models, differ in what they prepare for an item: `emit` is what they
share.

The wrapper is published last and only over complete archives
(`emit_publishes`): until everything has been compiled and written it is as it was, and
when emission succeeds, each archive that a module embeds is what was compiled for it.
-/

namespace Knok

open Function (update)
open Autograd Control

/-! ## The output directory -/

/-- Files, by their names in `OUT_DIR`. -/
abbrev Files := String → Option Bytes

/-- The files of `OUT_DIR`, and how many writes there have been. -/
structure OutDir where
  files : Files
  writes : ℕ

/-- The files of the default compiler cache: its lock and its artifacts. -/
def inCache (name : String) : Bool := startsWith name "knok-cache/"

inductive BuildError where
  | io
  | failed (error : Error)
  deriving DecidableEq

/-- Which writes fail, and what they leave. -/
abbrev WriteFaults := ℕ → Option (Option Bytes)

/-- `fs::write`. -/
def writeFile (faults : WriteFaults) (name : String) (content : Bytes) :
    Stateful OutDir BuildError Unit := do
  let dir ← get
  match faults dir.writes with
  | none => set (⟨update dir.files name (some content), dir.writes + 1⟩ : OutDir)
  | some left =>
      set (⟨update dir.files name left, dir.writes + 1⟩ : OutDir)
      throw .io

/-- `?` on a result. -/
def failing {α : Type} (result : Except Error α) : Stateful OutDir BuildError α :=
  liftM (result.mapError BuildError.failed)

/-- Runs a compilation, which has the compiler cache for its own. -/
def compiling {α : Type} (compile : Stateful Files Error α) : Stateful OutDir BuildError α := do
  let dir ← get
  let (result, files) := exec compile dir.files
  set { dir with files := fun name => if inCache name then files name else dir.files name }
  failing result

/-! ## Emitting items -/

structure BuildOptions where
  outputFile : String := "knok_graphs.rs"
  stubArtifacts : Bool := false
  compiler : CompileOptions := {}
  deriving DecidableEq

/-- What an entry point prepares for an item: the name of its archive, the compilation of
the archive, and the text of its module. -/
structure Emission where
  vmfbName : String
  vmfb : Stateful Files Error Bytes
  wrapper : Except Error String

section Emit

variable {ι : Type} (faults : WriteFaults) (prepare : ι → Except Error Emission)

/-- The archive that is written: compiled, or a placeholder. -/
def Emission.archive (emission : Emission) (stubArtifacts : Bool) : Stateful Files Error Bytes :=
  if stubArtifacts then pure (List.replicate 16 0) else emission.vmfb

/-- The body of the loop. -/
def emitItem (stubArtifacts : Bool) (item : ι) : Stateful OutDir BuildError String := do
  let emission ← failing (prepare item)
  let vmfb ← compiling (emission.archive stubArtifacts)
  writeFile faults emission.vmfbName vmfb
  let wrapper ← failing emission.wrapper
  return wrapper ++ "\n"

/-- The loop, with what has been generated. -/
def emitItems (stubArtifacts : Bool) : String → List ι → Stateful OutDir BuildError String
  | generated, [] => pure generated
  | generated, item :: items => do
      let text ← emitItem faults prepare stubArtifacts item
      emitItems stubArtifacts (generated ++ text) items

/-- What the entry points share. -/
def emit (options : BuildOptions) (items : List ι) : Stateful OutDir BuildError Unit := do
  let generated ← emitItems faults prepare options.stubArtifacts "" items
  writeFile faults options.outputFile (asBytes generated)

end Emit

/-! ## Entry points -/

structure RegisteredGraph where
  graph : TypedGraph
  backend : IreeBackend

structure MlirModel where
  name : String
  path : String
  functionName : String
  backend : IreeBackend
  inputs : List Input
  outputs : List TensorType

/-- What the entry points call outside of this model, and what they read of the
environment. -/
structure BuildTools where
  lowerToMlirWithRegistry : TypedGraph → Registry → Except Error String
  canonicalizeAndVerify : String → Except Error String
  compileWithIree : IreeBackend → List String → String → Stateful Files Error Bytes
  resolveModelPath : String → Except Error String
  readToString : String → Except Error String
  debugFormat : String → String
  features : BuildFeatures
  cargo : CargoProfile

namespace BuildTools

variable (tools : BuildTools)

/-- `compile_graph_with_options`, as far as the archive goes. -/
def compileGraphWithOptions (graph : TypedGraph) (graphs : Registry) (options : CompileOptions) :
    Stateful Files Error Bytes := do
  let mlir ← liftM (tools.lowerToMlirWithRegistry graph graphs)
  let backend ← liftM (parseBackend tools.features graph.backend)
  let flags ← liftM (options.resolve tools.features tools.cargo graph.backend)
  tools.compileWithIree backend flags mlir

def compileMlirSourceWithOptions (backend mlir : String) (options : CompileOptions) :
    Stateful Files Error Bytes := do
  let flags ← liftM (options.resolve tools.features tools.cargo backend)
  let backend ← liftM (parseBackend tools.features backend)
  let mlir ← liftM (tools.canonicalizeAndVerify mlir)
  tools.compileWithIree backend flags mlir

/-- `compile_registered_graph`, with its context. -/
def compileRegisteredGraph (graph : TypedGraph) (graphs : Registry) (options : CompileOptions) :
    Stateful Files Error Bytes :=
  (tools.compileGraphWithOptions graph graphs options).adapt fun error =>
    ⟨error.kind, s!"failed to compile graph `{graph.name}`: {error.message}"⟩

def graphVmfbName (name : String) : String := name ++ ".vmfb"

def mlirModelVmfbName (name : String) : String := "mlir-model-" ++ name ++ ".vmfb"

/-- The map of all graphs by name, in which later graphs replace earlier ones. -/
def graphRegistry (graphs : List RegisteredGraph) : Registry :=
  (graphs.map fun registered => (registered.graph.name, registered.graph)).reverse

/-- The module of a graph, with the flags of the options. -/
def graphWrapper (graph : TypedGraph) (backend : IreeBackend) (options : CompileOptions) :
    Except Error String := do
  let flags ← options.resolve tools.features tools.cargo backend.targetName
  let m ← graphModule graph backend (graphVmfbName graph.name) flags
  return m.text tools.debugFormat

def prepareGraph (graphs : List RegisteredGraph) (options : CompileOptions)
    (registered : RegisteredGraph) : Except Error Emission :=
  .ok ⟨graphVmfbName registered.graph.name,
    tools.compileRegisteredGraph registered.graph (graphRegistry graphs) options,
    tools.graphWrapper registered.graph registered.backend options⟩

def prepareGradGraph (graphs : List RegisteredGraph) (options : CompileOptions)
    (registered : RegisteredGraph) : Except Error Emission := do
  let graph ← valueAndGradGraphWithRegistry registered.graph (graphRegistry graphs)
  return ⟨graphVmfbName graph.name,
    tools.compileRegisteredGraph graph (graphRegistry graphs) options,
    tools.graphWrapper graph registered.backend options⟩

def prepareMlirModel (options : CompileOptions) (model : MlirModel) : Except Error Emission := do
  let sourcePath ← tools.resolveModelPath model.path
  return ⟨mlirModelVmfbName model.name,
    do
      let source ← liftM (tools.readToString sourcePath)
      tools.compileMlirSourceWithOptions model.backend.targetName source options,
    do
      let flags ← options.resolve tools.features tools.cargo model.backend.targetName
      let m ← generatedModule model.name model.functionName model.inputs model.outputs
        model.backend (mlirModelVmfbName model.name) flags
      return m.text tools.debugFormat⟩

variable (faults : WriteFaults) (options : BuildOptions)

def emitRegisteredGraphsWithOptions (graphs : List RegisteredGraph) :
    Stateful OutDir BuildError Unit :=
  emit faults (tools.prepareGraph graphs options.compiler) options graphs

def emitRegisteredGradGraphsWithOptions (graphs : List RegisteredGraph) :
    Stateful OutDir BuildError Unit :=
  emit faults (tools.prepareGradGraph graphs options.compiler) options graphs

def emitMlirModelsWithOptions (models : List MlirModel) : Stateful OutDir BuildError Unit :=
  emit faults (tools.prepareMlirModel options.compiler) options models

end BuildTools

/-! ## What emission does -/

section Emit

variable {ι : Type} {faults : WriteFaults} {prepare : ι → Except Error Emission}

/-- Files with other names are as they were. -/
def SameBut (names : String → Prop) (dir dir' : OutDir) : Prop :=
  ∀ name, ¬ names name → dir'.files name = dir.files name

instance isPreorder_sameBut (names : String → Prop) : IsPreorder OutDir (SameBut names) where
  refl _ _ _ := rfl
  trans _ _ _ h h' name hname := (h' name hname).trans (h name hname)

theorem exec_writeFile (faults : WriteFaults) (name : String) (content : Bytes) (dir : OutDir) :
    exec (writeFile faults name content) dir =
      match faults dir.writes with
      | none => (.ok (), ⟨update dir.files name (some content), dir.writes + 1⟩)
      | some left => (.error .io, ⟨update dir.files name left, dir.writes + 1⟩) := by
  unfold writeFile
  rw [exec_get_bind]
  split <;> rfl

/-- A write touches its file only. -/
theorem keeps_writeFile (names : String → Prop) {name : String} (hname : names name)
    (content : Bytes) : Keeps (SameBut names) (writeFile faults name content) := by
  intro dir other hother
  have hne : other ≠ name := by
    rintro rfl
    exact hother hname
  rw [exec_writeFile]
  split <;> exact Function.update_of_ne hne ..

theorem exec_failing {α : Type} (result : Except Error α) (dir : OutDir) :
    exec (failing result) dir = (result.mapError BuildError.failed, dir) :=
  exec_liftM ..

theorem exec_failing_bind_ok {α β : Type} {result : Except Error α}
    {f : α → Stateful OutDir BuildError β} {dir dir' : OutDir} {b : β} :
    exec (failing result >>= f) dir = (.ok b, dir') ↔
      ∃ a, result = .ok a ∧ exec (f a) dir = (.ok b, dir') := by
  cases result with
  | error error =>
      rw [exec_bind_error (exec_failing (.error error) dir)]
      simp
  | ok a =>
      rw [exec_bind_ok (exec_failing (.ok a) dir)]
      simp

theorem exec_writeFile_bind_ok {β : Type} {name : String} {content : Bytes}
    {f : Unit → Stateful OutDir BuildError β} {dir dir' : OutDir} {b : β} :
    exec (writeFile faults name content >>= f) dir = (.ok b, dir') ↔
      faults dir.writes = none ∧
        exec (f ()) ⟨update dir.files name (some content), dir.writes + 1⟩ = (.ok b, dir') := by
  rw [exec_bind, exec_writeFile]
  cases faults dir.writes <;> simp

theorem keeps_failing_bind {α β : Type} {R : OutDir → OutDir → Prop} [IsPreorder OutDir R]
    {result : Except Error α} {f : α → Stateful OutDir BuildError β}
    (h : ∀ a, result = .ok a → Keeps R (f a)) : Keeps R (failing result >>= f) := by
  intro dir
  cases result with
  | error error =>
      rw [exec_bind_error (exec_failing (.error error) dir)]
      exact refl_of R dir
  | ok a =>
      rw [exec_bind_ok (exec_failing (.ok a) dir)]
      exact h a rfl dir

/-- The name is that of an archive that is prepared. -/
def ArchiveName (prepare : ι → Except Error Emission) (items : List ι) (name : String) : Prop :=
  ∃ item ∈ items, ∃ emission, prepare item = .ok emission ∧ emission.vmfbName = name

/-- The names that compiling and writing archives can touch. -/
def Touched (prepare : ι → Except Error Emission) (items : List ι) (name : String) : Prop :=
  ArchiveName prepare items name ∨ inCache name = true

/-- The archive is in the directory, as it was compiled at some time after `dir`, when
only archives and the cache had been touched. -/
def Emission.Published (emission : Emission) (prepare : ι → Except Error Emission)
    (items : List ι) (stubArtifacts : Bool) (dir dir' : OutDir) : Prop :=
  ∃ mid vmfb, SameBut (Touched prepare items) dir mid ∧
    (exec (emission.archive stubArtifacts) mid.files).1 = .ok vmfb ∧
      dir'.files emission.vmfbName = some vmfb

theorem exec_compiling {α : Type} (compile : Stateful Files Error α) (dir : OutDir) :
    exec (compiling compile) dir =
      ((exec compile dir.files).1.mapError BuildError.failed,
        { dir with files := fun name =>
            if inCache name then (exec compile dir.files).2 name else dir.files name }) := by
  unfold compiling
  rw [exec_get_bind]
  exact exec_failing ..

/-- A compilation touches the cache only. -/
theorem keeps_compiling {α : Type} (names : String → Prop)
    (hnames : ∀ name, inCache name = true → names name) (compile : Stateful Files Error α) :
    Keeps (SameBut names) (compiling compile) := by
  intro dir name hname
  rw [exec_compiling]
  exact if_neg fun hcache => hname (hnames name hcache)

theorem exec_compiling_bind_ok {α β : Type} {compile : Stateful Files Error α}
    {f : α → Stateful OutDir BuildError β} {dir dir' : OutDir} {b : β}
    (h : exec (compiling compile >>= f) dir = (.ok b, dir')) :
    ∃ a, (exec compile dir.files).1 = .ok a ∧
      exec (f a) (exec (compiling compile) dir).2 = (.ok b, dir') := by
  rw [exec_bind, exec_compiling] at h
  rw [exec_compiling]
  cases hresult : (exec compile dir.files).1 with
  | error error =>
      rw [hresult] at h
      cases h
  | ok a =>
      rw [hresult] at h
      exact ⟨a, rfl, h⟩

/-- An item touches its archive and the cache only. -/
theorem keeps_emitItem (faults : WriteFaults) (prepare : ι → Except Error Emission)
    (stubArtifacts : Bool) {items : List ι} {item : ι} (hitem : item ∈ items) :
    Keeps (SameBut (Touched prepare items)) (emitItem faults prepare stubArtifacts item) := by
  apply keeps_failing_bind
  intro emission hprepare
  apply (keeps_compiling _ (fun _ => .inr) _).bind
  intro vmfb
  apply (keeps_writeFile _ (.inl ⟨item, hitem, emission, hprepare, rfl⟩) vmfb).bind
  intro _
  apply keeps_failing_bind
  exact fun wrapper _ => Keeps.of_pure _

/-- The loop touches archives and the cache only. -/
theorem keeps_emitItems (faults : WriteFaults) (prepare : ι → Except Error Emission)
    (stubArtifacts : Bool) {items : List ι} :
    ∀ {rest : List ι} (generated : String), rest ⊆ items →
      Keeps (SameBut (Touched prepare items))
        (emitItems faults prepare stubArtifacts generated rest) := by
  intro rest
  induction rest with
  | nil => exact fun generated _ => Keeps.of_pure generated
  | cons item rest ih =>
      intro generated hrest
      apply (keeps_emitItem faults prepare stubArtifacts (hrest List.mem_cons_self)).bind
      exact fun text => ih _ fun other hother => hrest (List.mem_cons_of_mem _ hother)

/-- **A successful item** has written its archive and returns the text of its module. -/
theorem emitItem_eq_ok {stubArtifacts : Bool} {item : ι} {dir dir' : OutDir} {text : String}
    (h : exec (emitItem faults prepare stubArtifacts item) dir = (.ok text, dir')) :
    ∃ emission wrapper vmfb, prepare item = .ok emission ∧ emission.wrapper = .ok wrapper ∧
      text = wrapper ++ "\n" ∧ (exec (emission.archive stubArtifacts) dir.files).1 = .ok vmfb ∧
      dir'.files emission.vmfbName = some vmfb := by
  obtain ⟨emission, hprepare, h⟩ := exec_failing_bind_ok.mp h
  obtain ⟨vmfb, harchive, h⟩ := exec_compiling_bind_ok h
  obtain ⟨-, h⟩ := exec_writeFile_bind_ok.mp h
  obtain ⟨wrapper, hwrapper, h⟩ := exec_failing_bind_ok.mp h
  rw [exec_pure, Prod.mk.injEq, Except.ok.injEq] at h
  obtain ⟨rfl, rfl⟩ := h
  exact ⟨emission, wrapper, vmfb, hprepare, hwrapper, rfl, harchive, Function.update_self ..⟩

/-- The modules of the wrapper file. -/
def joinWrappers (wrappers : List String) : String := String.join (wrappers.map (· ++ "\n"))

/-- **A successful loop** has written all archives and returns the text of all modules. -/
theorem emitItems_eq_ok {stubArtifacts : Bool} {items : List ι}
    (hcache : ∀ name, ArchiveName prepare items name → inCache name = false) {start : OutDir} :
    ∀ {rest : List ι} {generated text : String} {dir dir' : OutDir}, rest ⊆ items →
      SameBut (Touched prepare items) start dir →
      exec (emitItems faults prepare stubArtifacts generated rest) dir = (.ok text, dir') →
      (∀ emissions, rest.mapM prepare = .ok emissions →
        (emissions.map Emission.vmfbName).Nodup) →
      ∃ emissions wrappers, rest.mapM prepare = .ok emissions ∧
        emissions.mapM Emission.wrapper = .ok wrappers ∧
        text = generated ++ joinWrappers wrappers ∧
        ∀ emission ∈ emissions, emission.Published prepare items stubArtifacts start dir' := by
  intro rest
  induction rest with
  | nil =>
      intro generated text dir dir' _ _ h _
      cases h
      exact ⟨[], [], rfl, rfl, by simp [joinWrappers], fun emission h => by cases h⟩
  | cons item rest ih =>
      intro generated text dir dir' hrest hsame h hnames
      obtain ⟨hitem, hrest⟩ := List.cons_subset.mp hrest
      have hkeepsItem := keeps_emitItem faults prepare stubArtifacts hitem dir
      rw [emitItems, exec_bind] at h
      rcases hfirst : exec (emitItem faults prepare stubArtifacts item) dir with ⟨result, mid⟩
      rw [hfirst] at h hkeepsItem
      cases result with
      | error error => cases h
      | ok first =>
          obtain ⟨emission, wrapper, vmfb, hprepare, hwrapper, rfl, harchive, hfile⟩ :=
            emitItem_eq_ok hfirst
          change exec
            (emitItems faults prepare stubArtifacts (generated ++ (wrapper ++ "\n")) rest) mid = _
              at h
          have hcons : ∀ emissions, rest.mapM prepare = .ok emissions →
              (item :: rest).mapM prepare = .ok (emission :: emissions) := by
            intro emissions hemissions
            rw [List.mapM_cons, hprepare, hemissions]
            rfl
          obtain ⟨emissions, wrappers, hemissions, hwrappers, rfl, hpublished⟩ :=
            ih hrest (trans_of _ hsame hkeepsItem) h fun emissions hemissions => by
              have hall := hnames _ (hcons emissions hemissions)
              rw [List.map_cons] at hall
              exact hall.of_cons
          have hnodup := hnames _ (hcons emissions hemissions)
          rw [List.map_cons, List.nodup_cons] at hnodup
          refine ⟨emission :: emissions, wrapper :: wrappers, hcons emissions hemissions, ?_, ?_,
            ?_⟩
          · rw [List.mapM_cons, hwrapper, hwrappers]
            rfl
          · simp [joinWrappers, String.append_assoc]
          · -- the rest has other archives
            have hkept : dir'.files emission.vmfbName = mid.files emission.vmfbName := by
              have hkeeps := keeps_emitItems faults prepare stubArtifacts
                (generated ++ (wrapper ++ "\n")) (List.Subset.refl rest) mid emission.vmfbName
              rw [h] at hkeeps
              apply hkeeps
              rintro (⟨other, hother, emission', hprepare', hname⟩ | hincache)
              · have hmem := mem_of_mapM hemissions hother hprepare'
                exact hnodup.1 (List.mem_map.mpr ⟨emission', hmem, hname⟩)
              · rw [hcache _ ⟨item, hitem, emission, hprepare, rfl⟩] at hincache
                cases hincache
            intro emission' hemission'
            rcases List.mem_cons.mp hemission' with rfl | hemission'
            · exact ⟨dir, vmfb, hsame, harchive, hkept.trans hfile⟩
            · exact hpublished emission' hemission'

/-- **The wrapper is published last, over complete archives.**  Files other than the
archives, the wrapper and those of the compiler cache are as they were.  Either emission
has failed and the wrapper is as it was too, or all archives are in the directory, each
one what was compiled for its item; then the wrapper consists of the modules in the order
of the items, unless writing it failed. -/
theorem emit_publishes {options : BuildOptions} {items : List ι} {dir dir' : OutDir}
    {result : Except BuildError Unit}
    (h : exec (emit faults prepare options items) dir = (result, dir'))
    (hnames : ∀ emissions, items.mapM prepare = .ok emissions →
      (emissions.map Emission.vmfbName).Nodup)
    (houtput : ¬ ArchiveName prepare items options.outputFile)
    (hcache : ∀ name, ArchiveName prepare items name ∨ name = options.outputFile →
      inCache name = false) :
    (∀ name, name ≠ options.outputFile → ¬ ArchiveName prepare items name →
        inCache name = false → dir'.files name = dir.files name) ∧
      (result ≠ .ok () ∧ dir'.files options.outputFile = dir.files options.outputFile ∨
        ∃ emissions wrappers, items.mapM prepare = .ok emissions ∧
          emissions.mapM Emission.wrapper = .ok wrappers ∧
          (∀ emission ∈ emissions,
            emission.Published prepare items options.stubArtifacts dir dir') ∧
          (result = .ok () ∧
              dir'.files options.outputFile = some (asBytes (joinWrappers wrappers)) ∨
            result = .error .io)) := by
  have huntouched : ∀ name, ¬ ArchiveName prepare items name → inCache name = false →
      ¬ Touched prepare items name := by
    rintro name hname hincache (harchive | htrue)
    · exact hname harchive
    · rw [hincache] at htrue
      cases htrue
  have houtput' := huntouched _ houtput (hcache _ (.inr rfl))
  rw [emit, exec_bind] at h
  have hkeeps := keeps_emitItems faults prepare options.stubArtifacts ""
    (List.Subset.refl items) dir
  rcases hloop : exec (emitItems faults prepare options.stubArtifacts "" items) dir with
    ⟨generated, mid⟩
  rw [hloop] at h hkeeps
  cases generated with
  | error error =>
      obtain ⟨rfl, rfl⟩ := Prod.mk.inj h
      exact ⟨fun name _ hname hincache => hkeeps name (huntouched name hname hincache),
        .inl ⟨by rintro ⟨⟩, hkeeps _ houtput'⟩⟩
  | ok text =>
      obtain ⟨emissions, wrappers, hemissions, hwrappers, rfl, hpublished⟩ :=
        emitItems_eq_ok (fun name hname => hcache name (.inl hname)) (List.Subset.refl items)
          (refl_of _ dir) hloop hnames
      rw [String.empty_append] at h
      change exec (writeFile faults options.outputFile (asBytes (joinWrappers wrappers))) mid = _
        at h
      -- the last write
      have hlast : ∀ name, name ≠ options.outputFile → dir'.files name = mid.files name := by
        intro name hname
        have hwrite : Keeps (SameBut (· = options.outputFile))
            (writeFile faults options.outputFile (asBytes (joinWrappers wrappers))) :=
          keeps_writeFile (· = options.outputFile) rfl _
        have hfile := hwrite mid name hname
        rwa [h] at hfile
      refine ⟨fun name hne hname hincache =>
          (hlast name hne).trans (hkeeps name (huntouched name hname hincache)),
        .inr ⟨emissions, wrappers, hemissions, hwrappers, fun emission hemission => ?_, ?_⟩⟩
      · obtain ⟨before, vmfb, hbefore, harchive, hfile⟩ := hpublished emission hemission
        refine ⟨before, vmfb, hbefore, harchive, (hlast _ ?_).trans hfile⟩
        rintro heq
        obtain ⟨item, hitem, hprepare⟩ := exists_mem_of_mapM_ok hemissions hemission
        exact houtput ⟨item, hitem, emission, hprepare, heq⟩
      · rw [exec_writeFile] at h
        cases hfault : faults mid.writes with
        | none =>
            rw [hfault] at h
            obtain ⟨rfl, rfl⟩ := Prod.mk.inj h
            exact .inl ⟨rfl, Function.update_self ..⟩
        | some left =>
            rw [hfault] at h
            exact .inr (Prod.mk.inj h).1.symm

/-- Archives of graphs with different names have different names. -/
theorem BuildTools.nodup_prepareGraph (tools : BuildTools) {graphs items : List RegisteredGraph}
    {options : CompileOptions} (h : (items.map fun r => r.graph.name).Nodup) :
    ∀ emissions, items.mapM (tools.prepareGraph graphs options) = .ok emissions →
      (emissions.map Emission.vmfbName).Nodup := by
  intro emissions hemissions
  have hall : items.mapM (tools.prepareGraph graphs options) = .ok _ :=
    except_mapM_of_forall fun _ _ => rfl
  rw [hall, Except.ok.injEq] at hemissions
  rw [← hemissions, List.map_map]
  have hinj : Function.Injective BuildTools.graphVmfbName := fun name name' heq =>
    (String.append_left_inj _).mp heq
  rw [show (Emission.vmfbName ∘ _) =
    graphVmfbName ∘ fun r : RegisteredGraph => r.graph.name from rfl, ← List.map_map]
  exact h.map hinj

end Emit

/-- Tools of which the compiler takes its lock and keeps the program that it is given. -/
def copyingTools : BuildTools where
  lowerToMlirWithRegistry _ _ := .ok "module"
  canonicalizeAndVerify mlir := .ok mlir
  compileWithIree _ _ mlir := do
    modify fun files => update files "knok-cache/iree-compiler.lock" (some [])
    return asBytes mlir
  resolveModelPath path := .ok path
  readToString _ := .error (.msg "not read")
  debugFormat flag := "\"" ++ flag ++ "\""
  features := {}
  cargo := ⟨none, none⟩

def identityGraph : RegisteredGraph :=
  ⟨⟨"identity", "llvm-cpu", [⟨"x", ⟨.f32, [2]⟩⟩], [⟨.f32, [2]⟩], [], [⟨.var "x", ⟨.f32, [2]⟩⟩]⟩,
    .llvmCpu⟩

/-- The output directory of a build. -/
def identityBuild : Except BuildError Unit × OutDir :=
  exec (copyingTools.emitRegisteredGraphsWithOptions (fun _ => none) {} [identityGraph])
    ⟨fun _ => none, 0⟩

theorem emit_publishes_identity :
    identityBuild.2.files "identity.vmfb" = some (asBytes "module") ∧
      ∃ wrapper, copyingTools.graphWrapper identityGraph.graph .llvmCpu {} = .ok wrapper ∧
        identityBuild.2.files "knok_graphs.rs" = some (asBytes (joinWrappers [wrapper])) := by
  have hok : identityBuild.1 = .ok () := by decide +kernel
  have hrun : exec (emit (fun _ => none) (copyingTools.prepareGraph [identityGraph] {})
      {} [identityGraph]) ⟨fun _ => none, 0⟩ = (identityBuild.1, identityBuild.2) := rfl
  have harchive : ∀ name, ArchiveName (copyingTools.prepareGraph [identityGraph] {})
      [identityGraph] name → name = "identity.vmfb" := by
    rintro _ ⟨_, hitem, _, ⟨⟩, rfl⟩
    rw [List.mem_singleton.mp hitem]
    decide
  have houtput : ¬ ArchiveName (copyingTools.prepareGraph [identityGraph] {}) [identityGraph]
      "knok_graphs.rs" := fun hname => absurd (harchive _ hname) (by decide)
  have hcache : ∀ name, ArchiveName (copyingTools.prepareGraph [identityGraph] {})
      [identityGraph] name ∨ name = "knok_graphs.rs" → inCache name = false := by
    rintro name (hname | rfl)
    · rw [harchive _ hname]
      decide
    · decide
  obtain ⟨-, ⟨hfail, -⟩ | ⟨emissions, wrappers, hemissions, hwrappers, hpublished, hwrapper⟩⟩ :=
    emit_publishes hrun (copyingTools.nodup_prepareGraph (by decide)) houtput hcache
  · exact absurd hok hfail
  · obtain ⟨emission, _, ⟨⟩, hrest, rfl⟩ :=
      List.forall₂_cons_left_iff.mp (except_mapM_eq_ok_iff.mp hemissions)
    cases hrest
    obtain ⟨wrapper, _, hwrapperOk, hrest, rfl⟩ :=
      List.forall₂_cons_left_iff.mp (except_mapM_eq_ok_iff.mp hwrappers)
    cases hrest
    obtain ⟨_, _, -, hvmfb, hfile⟩ := hpublished _ List.mem_cons_self
    cases hvmfb
    rcases hwrapper with ⟨-, hwrapper⟩ | hfail
    · exact ⟨hfile, wrapper, hwrapperOk, hwrapper⟩
    · rw [hok] at hfail
      cases hfail

end Knok
