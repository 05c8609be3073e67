import Mathlib
import Knok.Artifacts
import Knok.Control.Checked
import Knok.Fresh

/-!
# Generated wrappers

For each graph the build script generates a Rust module: the artifact with its
signature, a typed handle `GRAPH`, and functions that call the handle with parameters
named after the inputs.  `generatedModule` computes what the template of the module is
filled with, and `GeneratedModule.text` fills it.

The handle's types have the signature that the artifact declares, so the check in
`Graph::new`, which is evaluated when the module is compiled, does not panic.  As far as
names and tensor types go, the module compiles exactly if the names of the graph and of
its inputs can be used where the template puts them (`generatedModule_compiles_iff`):
`is_keyword` does not know all reserved words, and a parameter cannot have the name of a
static.  The parameters that are not inputs get their names last and step aside for the
inputs.
-/

namespace Knok

open Control Fresh

/-! ## Names -/

/-- A name that `is_ident` accepts. -/
def isIdent (name : String) : Bool :=
  match name.toList with
  | [] => false
  | first :: rest =>
      (first == '_' || first.isAlpha) && rest.all fun ch => ch == '_' || ch.isAlphanum

/-- The words that `is_keyword` matches. -/
def keywords : List String :=
  ["as", "break", "const", "continue", "crate", "else", "enum", "extern", "false", "fn", "for",
    "if", "impl", "in", "let", "loop", "match", "mod", "move", "mut", "pub", "ref", "return",
    "self", "Self", "static", "struct", "super", "trait", "true", "type", "unsafe", "use",
    "where", "while", "async", "await", "dyn"]

def isKeyword (name : String) : Bool := keywords.contains name

def sanitizeIdent (name : String) : Except Error String :=
  if isIdent name && !isKeyword name then .ok name
  else .error (.msg s!"`{name}` is not a valid generated Rust identifier")

def isVmFunctionName (name : String) : Bool :=
  !name.isEmpty && name.toList.all fun ch => ch == '.' || ch == '_' || ch.isAlphanum

/-- A base name with underscores pushed to it. -/
def underscored (base : String) (count : ℕ) : String :=
  base ++ String.ofList (List.replicate count '_')

/-- `while input_names.contains(&name) { name.push('_') }`. -/
def freeParam (inputNames : List String) (base : String) : String :=
  underscored base (freshIndex (underscored base) inputNames inputNames.length 0)

/-! ## Types -/

def rustElementType : ElementType → String
  | .bool => "bool"
  | .f32 => "f32"
  | .f64 => "f64"
  | .f16 => "::knok::half::f16"
  | .bf16 => "::knok::half::bf16"
  | .i32 => "i32"
  | .i64 => "i64"

/-- The type of a tensor; the code panics on ranks above 6. -/
def rustTensorType (ty : TensorType) : Except Error TensorHandle :=
  match ty.shape with
  | [] => .ok ⟨"Tensor0", rustElementType ty.elem, ty.shape⟩
  | [_] => .ok ⟨"Tensor1", rustElementType ty.elem, ty.shape⟩
  | [_, _] => .ok ⟨"Tensor2", rustElementType ty.elem, ty.shape⟩
  | [_, _, _] => .ok ⟨"Tensor3", rustElementType ty.elem, ty.shape⟩
  | [_, _, _, _] => .ok ⟨"Tensor4", rustElementType ty.elem, ty.shape⟩
  | [_, _, _, _, _] => .ok ⟨"Tensor5", rustElementType ty.elem, ty.shape⟩
  | [_, _, _, _, _, _] => .ok ⟨"Tensor6", rustElementType ty.elem, ty.shape⟩
  | _ => .error (.msg s!"rank {ty.shape.length} cannot be represented by knok tensor containers")

def TensorHandle.text (tensor : TensorHandle) : String :=
  "::knok::tensor::" ++ tensor.name ++ "<" ++
    String.intercalate ", " (tensor.elem :: tensor.dims.map toString) ++ ">"

/-- The text of `rust_input_type` and of `rust_input_expr`. -/
def HandleType.inputText : HandleType String → String
  | .unit => "()"
  | .single text => text
  | .tuple texts => "(" ++ String.intercalate " " (texts.map (· ++ ",")) ++ ")"

/-- The text of `rust_output_type`. -/
def HandleType.outputText : HandleType String → String
  | .unit => "()"
  | .single text => text
  | .tuple texts => "(" ++ String.intercalate ", " texts ++ ")"

def rustInputType (tensors : List TensorHandle) : HandleType TensorHandle := .ofList tensors

def rustOutputType (tensors : List TensorHandle) : HandleType TensorHandle := .ofList tensors

def rustInputExpr (inputNames : List String) : HandleType String := .ofList inputNames

def dtypeExpr : ElementType → String
  | .bool => "::knok::DType::Bool"
  | .f32 => "::knok::DType::F32"
  | .f64 => "::knok::DType::F64"
  | .f16 => "::knok::DType::F16"
  | .bf16 => "::knok::DType::BF16"
  | .i32 => "::knok::DType::I32"
  | .i64 => "::knok::DType::I64"

def shapeArray (ty : TensorType) : String :=
  "[" ++ String.intercalate ", " (ty.shape.map toString) ++ "]"

def tensorDesc (ty : TensorType) : String :=
  "::knok::TensorDesc::new(" ++ dtypeExpr ty.elem ++ ", &" ++ shapeArray ty ++ ")"

/-! ## Modules -/

def maxGraphTupleArity : ℕ := 12

def ensureSupportedTupleArity (kind : String) (len : ℕ) : Except Error Unit :=
  failIf (maxGraphTupleArity < len)
    (s!"generated graph {kind} arity {len} exceeds the supported maximum of " ++
      s!"{maxGraphTupleArity}")

/-- What the template of a module is filled with. -/
structure GeneratedModule where
  moduleName : String
  functionName : String
  inputNames : List String
  inputTypes : List TensorHandle
  inputDescs : List TensorType
  outputTypes : List TensorHandle
  outputDescs : List TensorType
  backend : IreeBackend
  vmfbName : String
  compileFlags : List String
  deriving DecidableEq

def generatedModule (name functionName : String) (inputs : List Input) (outputs : List TensorType)
    (backend : IreeBackend) (vmfbName : String) (compileFlags : List String) :
    Except Error GeneratedModule := do
  let moduleName ← sanitizeIdent name
  failIf (!isVmFunctionName functionName)
    s!"`{functionName}` is not a valid IREE VM function name"
  ensureSupportedTupleArity "input" inputs.length
  ensureSupportedTupleArity "output" outputs.length
  let inputNames ← inputs.mapM fun input => sanitizeIdent input.name
  let inputTypes ← inputs.mapM fun input => rustTensorType input.ty
  let outputTypes ← outputs.mapM rustTensorType
  return ⟨moduleName, functionName, inputNames, inputTypes, inputs.map Input.ty, outputTypes,
    outputs, backend, vmfbName, compileFlags⟩

/-- The wrapper of a traced graph. -/
def graphModule (graph : TypedGraph) (backend : IreeBackend) (vmfbName : String)
    (compileFlags : List String) : Except Error GeneratedModule :=
  generatedModule graph.name s!"knok.{graph.name}" graph.inputs graph.outputs backend vmfbName
    compileFlags

/-! ## Functions of a module -/

/-- The types of parameters. -/
inductive ParamType where
  /-- `&::knok::Engine`. -/
  | engine
  /-- A borrowed tensor. -/
  | input (tensor : TensorHandle)
  /-- Mutable outputs. -/
  | outputs (tensors : HandleType TensorHandle)
  deriving DecidableEq

/-- A call `GRAPH.method(engine, inputs, outputs)`. -/
structure GraphCall where
  method : String
  engine : Option String
  inputs : HandleType String
  outputs : Option String
  deriving DecidableEq

/-- A function whose body is one call of the handle. -/
structure WrapperFn where
  name : String
  params : List (String × ParamType)
  body : GraphCall
  deriving DecidableEq

namespace GeneratedModule

variable (m : GeneratedModule)

def engineName : String := freeParam m.inputNames "engine"

def outputName : String := freeParam m.inputNames "outputs"

def inputParams : List (String × ParamType) := m.inputNames.zip (m.inputTypes.map .input)

def runParams : List (String × ParamType) := (m.engineName, .engine) :: m.inputParams

def runIntoParams : List (String × ParamType) :=
  m.runParams ++ [(m.outputName, .outputs (rustOutputType m.outputTypes))]

/-- The functions `run`, `run_into` and `call`. -/
def functions : List WrapperFn :=
  [⟨"run", m.runParams, ⟨"run", some m.engineName, rustInputExpr m.inputNames, none⟩⟩,
    ⟨"run_into", m.runIntoParams,
      ⟨"run_into", some m.engineName, rustInputExpr m.inputNames, some m.outputName⟩⟩,
    ⟨"call", m.inputParams, ⟨"run_once", none, rustInputExpr m.inputNames, none⟩⟩]

/-- The artifact that the module declares, once its archive has been embedded. -/
def artifact (vmfb : StaticBytes) : GraphArtifact :=
  ⟨m.functionName, m.inputDescs, m.outputDescs, [⟨vmfb, m.backend, m.compileFlags⟩]⟩

end GeneratedModule

/-! ## The template -/

/-- How a backend is written with `:?`. -/
def IreeBackend.debugText : IreeBackend → String
  | .llvmCpu => "LlvmCpu"
  | .metalSpirv => "MetalSpirv"
  | .vulkanSpirv => "VulkanSpirv"
  | .cuda => "Cuda"

def HandleType.inputTypeText (tensors : HandleType TensorHandle) : String :=
  (tensors.map TensorHandle.text).inputText

def HandleType.outputTypeText (tensors : HandleType TensorHandle) : String :=
  (tensors.map TensorHandle.text).outputText

def ParamType.text : ParamType → String
  | .engine => "&::knok::Engine"
  | .input tensor => "&" ++ tensor.text
  | .outputs tensors => "&mut " ++ tensors.outputTypeText

def paramsText (params : List (String × ParamType)) : String :=
  String.intercalate ", " (params.map fun param => param.1 ++ ": " ++ param.2.text)

def GraphCall.text (call : GraphCall) : String :=
  "GRAPH." ++ call.method ++ "(" ++
    String.intercalate ", "
      (call.engine.toList ++ [call.inputs.inputText] ++ call.outputs.toList) ++ ")"

/-- The lines of a function: its comment, its head and its body. -/
def WrapperFn.lines (fn : WrapperFn) (comment result : String) : List String :=
  ["    /// " ++ comment,
    "    pub fn " ++ fn.name ++ "(" ++ paramsText fn.params ++ ") -> ::knok::Result<" ++ result ++
      "> \x7b",
    "        " ++ fn.body.text,
    "    \x7d"]

namespace GeneratedModule

variable (m : GeneratedModule)

/-- The comments and result types of the functions. -/
def functionNotes : List (String × String) :=
  let output := (rustOutputType m.outputTypes).outputTypeText
  [("Runs with borrowed inputs and a reusable engine.", output),
    ("Runs with borrowed inputs and reuses host output storage.", "()"),
    ("Runs once with borrowed inputs, creating an engine for this invocation.", output)]

/-- The text of the module, with the way in which flags are written with `:?`. -/
def text (debugFormat : String → String) : String :=
  let inputType := (rustInputType m.inputTypes).inputTypeText
  let outputType := (rustOutputType m.outputTypes).outputTypeText
  let functions := (m.functions.zip m.functionNotes).map fun (fn, comment, result) =>
    fn.lines comment result
  String.intercalate "\n" (
    ["pub mod " ++ m.moduleName ++ " \x7b",
      "    static VMFB: &[u8] = include_bytes!(concat!(env!(\"OUT_DIR\"), \"/" ++ m.vmfbName ++
        "\"));",
      "    static COMPILE_FLAGS: &[&str] = &[" ++
        String.intercalate ", " (m.compileFlags.map debugFormat) ++ "];",
      "    static VARIANTS: &[::knok::GraphArtifactVariant] = " ++
        "&[::knok::GraphArtifactVariant::new(",
      "        VMFB, ::knok::Backend::" ++ m.backend.debugText ++ ", COMPILE_FLAGS,",
      "    )];",
      "    static INPUT_DESCS: &[::knok::TensorDesc] = &[" ++
        String.intercalate ", " (m.inputDescs.map tensorDesc) ++ "];",
      "    static OUTPUT_DESCS: &[::knok::TensorDesc] = &[" ++
        String.intercalate ", " (m.outputDescs.map tensorDesc) ++ "];",
      "",
      "    pub const fn artifact() -> ::knok::GraphArtifact \x7b",
      "        ::knok::GraphArtifact::new(\"" ++ m.functionName ++
        "\", INPUT_DESCS, OUTPUT_DESCS, VARIANTS)",
      "    \x7d",
      "",
      "    pub static GRAPH: ::knok::Graph<" ++ inputType ++ ", " ++ outputType ++
        "> = match ::knok::Graph::new(artifact()) \x7b",
      "        Ok(graph) => graph,",
      "        Err(_) => panic!(\"generated graph signature mismatch\"),",
      "    \x7d;",
      "",
      "    ::knok::__runtime! \x7b",
      "    /// Prepared model for this graph.",
      "    pub type Model<\x27a> = ::knok::Model<\x27a, " ++ inputType ++ ", " ++ outputType ++
        ">;",
      "",
      "    /// Loads the graph and resolves its function once for repeated calls.",
      "    pub fn load(engine: &::knok::Engine) -> ::knok::Result<Model<\x27_>> \x7b",
      "        GRAPH.load(engine)",
      "    \x7d",
      ""] ++
    List.intercalate [""] functions ++
    ["    \x7d", "\x7d", ""])

end GeneratedModule

/-! ## Well-typed functions -/

/-- The tensor that a parameter borrows. -/
def borrowedType (params : List (String × ParamType)) (name : String) : Option TensorHandle :=
  match params.lookup name with
  | some (.input tensor) => some tensor
  | _ => none

/-- The methods of `Graph`, and whether they take an engine and outputs. -/
def graphMethods : List (String × Bool × Bool) :=
  [("run", true, false), ("run_into", true, true), ("run_once", false, false)]

/-- The words that Rust (edition 2021) reserves, and the wildcard. -/
def reservedWords : List String :=
  ["_", "abstract", "as", "async", "await", "become", "box", "break", "const", "continue",
    "crate", "do", "dyn", "else", "enum", "extern", "false", "final", "fn", "for", "if", "impl",
    "in", "let", "loop", "macro", "match", "mod", "move", "mut", "override", "priv", "pub", "ref",
    "return", "self", "Self", "static", "struct", "super", "trait", "true", "try", "type",
    "typeof", "unsafe", "unsized", "use", "virtual", "where", "while", "yield"]

/-- An ASCII identifier of Rust. -/
structure RustIdentifier (name : String) : Prop where
  first : ∃ ch ∈ name.toList.head?, ch = '_' ∨ ch.isAlpha = true
  rest : ∀ ch ∈ name.toList, ch = '_' ∨ ch.isAlphanum = true
  unreserved : name ∉ reservedWords

/-- The names that stand for values in a generated module and that a parameter cannot
have: its statics, and the constructors of the prelude. -/
def constantNames : List String :=
  ["VMFB", "COMPILE_FLAGS", "VARIANTS", "INPUT_DESCS", "OUTPUT_DESCS", "GRAPH",
    "None", "Some", "Ok", "Err"]

/-- A name that a parameter can have. -/
structure ParamName (name : String) : Prop where
  identifier : RustIdentifier name
  fresh : name ∉ constantNames

/-- The function compiles against a handle of type `Graph<inputs, outputs>`. -/
structure WrapperFn.WellTyped (inputs outputs : HandleType TensorHandle) (fn : WrapperFn) :
    Prop where
  distinct : (fn.params.map Prod.fst).Nodup
  names : ∀ param ∈ fn.params, ParamName param.1
  method : (fn.body.method, fn.body.engine.isSome, fn.body.outputs.isSome) ∈ graphMethods
  engine : ∀ name ∈ fn.body.engine, fn.params.lookup name = some .engine
  inputs : fn.body.inputs.traverse (borrowedType fn.params) = some inputs
  outputs : ∀ name ∈ fn.body.outputs, fn.params.lookup name = some (.outputs outputs)

/-- The module compiles, as far as its names and the types of its calls go. -/
structure GeneratedModule.Compiles (m : GeneratedModule) : Prop where
  name : RustIdentifier m.moduleName
  functions : ∀ fn ∈ m.functions,
    fn.WellTyped (rustInputType m.inputTypes) (rustOutputType m.outputTypes)

/-! ### Names -/

theorem sanitizeIdent_eq_ok_iff {name result : String} :
    sanitizeIdent name = .ok result ↔
      (isIdent name = true ∧ isKeyword name = false) ∧ name = result := by
  unfold sanitizeIdent
  cases isIdent name <;> cases isKeyword name <;> simp

theorem underscored_injective (base : String) : Function.Injective (underscored base) := by
  intro i j h
  have hchars := congrArg String.toList h
  simp only [underscored, String.toList_append, String.toList_ofList, List.append_cancel_left_eq]
    at hchars
  simpa using congrArg List.length hchars

/-- The name that a parameter gets is not the name of an input. -/
theorem freeParam_not_mem (inputNames : List String) (base : String) :
    freeParam inputNames base ∉ inputNames :=
  freshIndex_not_mem (underscored_injective base) inputNames 0

theorem isIdent_eq_true_iff {name : String} :
    isIdent name = true ↔ (∃ ch ∈ name.toList.head?, ch = '_' ∨ ch.isAlpha = true) ∧
      ∀ ch ∈ name.toList, ch = '_' ∨ ch.isAlphanum = true := by
  unfold isIdent
  cases name.toList with
  | nil => simp
  | cons first rest =>
      have hfirst : first.isAlpha = true → first.isAlphanum = true := fun h => by
        rw [Char.isAlphanum, h, Bool.true_or]
      simp only [Bool.and_eq_true, Bool.or_eq_true, beq_iff_eq, List.all_eq_true, List.head?_cons,
        Option.mem_def, Option.some.injEq, exists_eq_left', List.mem_cons, forall_eq_or_imp]
      constructor
      · rintro ⟨h, hrest⟩
        exact ⟨h, h.imp_right hfirst, hrest⟩
      · rintro ⟨h, -, hrest⟩
        exact ⟨h, hrest⟩

/-- What `is_ident` accepts are the identifiers and the reserved words. -/
theorem rustIdentifier_iff {name : String} (h : isIdent name = true) :
    RustIdentifier name ↔ name ∉ reservedWords := by
  obtain ⟨hfirst, hrest⟩ := isIdent_eq_true_iff.mp h
  exact ⟨fun h => h.unreserved, fun h => ⟨hfirst, hrest, h⟩⟩

/-- Underscores make a name from a name that differs in its first letters from all
reserved words and all constants. -/
theorem paramName_underscored {base : String} (hbase : isIdent base = true)
    (hlen : 3 ≤ base.toList.length)
    (hne : ∀ word ∈ reservedWords ++ constantNames, word.toList.take 3 ≠ base.toList.take 3)
    (count : ℕ) : ParamName (underscored base count) := by
  have hchars : (underscored base count).toList = base.toList ++ List.replicate count '_' := by
    rw [underscored, String.toList_append, String.toList_ofList]
  have hfresh : underscored base count ∉ reservedWords ++ constantNames := by
    intro hmem
    apply hne _ hmem
    rw [hchars, List.take_append_of_le_length hlen]
  rw [List.mem_append, not_or] at hfresh
  obtain ⟨⟨ch, hch, hfirst⟩, hrest⟩ := isIdent_eq_true_iff.mp hbase
  refine ⟨⟨⟨ch, ?_, hfirst⟩, fun other hother => ?_, hfresh.1⟩, hfresh.2⟩
  · rw [hchars, List.head?_append_of_ne_nil _ (List.ne_nil_of_length_pos (by omega))]
    exact hch
  · rw [hchars, List.mem_append] at hother
    rcases hother with hother | hother
    · exact hrest other hother
    · exact .inl (List.eq_of_mem_replicate hother)

theorem underscored_ne {base base' : String} (hlen : base.toList ≠ []) (hlen' : base'.toList ≠ [])
    (hhead : base.toList.head? ≠ base'.toList.head?) (count count' : ℕ) :
    underscored base count ≠ underscored base' count' := by
  intro h
  have hchars := congrArg (fun name : String => name.toList.head?) h
  simp only [underscored, String.toList_append, List.head?_append_of_ne_nil _ hlen,
    List.head?_append_of_ne_nil _ hlen'] at hchars
  exact hhead hchars

/-! ### Types -/

theorem graphElement_rustElementType (elem : ElementType) :
    graphElement (rustElementType elem) = some elem := by
  cases elem <;> decide

/-- The handle of a tensor type describes it. -/
theorem desc_of_rustTensorType {ty : TensorType} {tensor : TensorHandle}
    (h : rustTensorType ty = .ok tensor) : tensor.desc = some ty := by
  obtain ⟨elem, shape⟩ := ty
  have hdesc : ∀ name rank, graphTensor name = some rank → shape.length = rank →
      TensorHandle.desc ⟨name, rustElementType elem, shape⟩ = some ⟨elem, shape⟩ := by
    intro name rank hname hrank
    simp [TensorHandle.desc, hname, graphElement_rustElementType, hrank]
  unfold rustTensorType at h
  split at h
  all_goals first
    | cases h; done
    | next heq =>
      cases h
      dsimp only at heq
      subst heq
      exact hdesc _ _ rfl rfl

/-- Up to twelve tensors put together have the signature of their types. -/
theorem descs_ofList {tensors : List TensorHandle} {types : List TensorType}
    (hlen : tensors.length ≤ maxGraphTupleArity)
    (h : List.Forall₂ (fun tensor ty => tensor.desc = some ty) tensors types) :
    (HandleType.ofList tensors).descs = some types := by
  have htyped : (HandleType.ofList tensors).typed =
      (HandleType.ofList tensors).traverse TensorHandle.desc := by
    unfold HandleType.ofList
    split
    · rfl
    · rfl
    · next hne _ => exact if_pos ⟨hne, hlen⟩
  rw [HandleType.descs, htyped, HandleType.traverse_ofList h, Option.map_some,
    HandleType.tensors_ofList]

/-! ### Functions -/

/-- A parameter is found under its name when names are distinct. -/
theorem lookup_of_mem {α : Type} {params : List (String × α)} (hnames : (params.map Prod.fst).Nodup)
    {name : String} {value : α} (h : (name, value) ∈ params) :
    params.lookup name = some value := by
  obtain ⟨before, after, rfl⟩ := List.append_of_mem h
  refine List.lookup_eq_some_iff.mpr ⟨before, after, rfl, fun param hparam => ?_⟩
  rw [List.map_append, List.map_cons] at hnames
  have hdisjoint := (List.nodup_append.mp hnames).2.2
  have hne := hdisjoint param.1 (List.mem_map_of_mem hparam) name List.mem_cons_self
  simpa using Ne.symm hne

/-- Inputs are found among parameters that contain them. -/
theorem traverse_borrowedType {params : List (String × ParamType)} {names : List String}
    {tensors : List TensorHandle} (hparams : (params.map Prod.fst).Nodup)
    (hlen : names.length = tensors.length)
    (hinputs : names.zip (tensors.map ParamType.input) ⊆ params) :
    (HandleType.ofList names).traverse (borrowedType params) = some (.ofList tensors) := by
  apply HandleType.traverse_ofList
  refine List.forall₂_iff_zip.mpr ⟨hlen, fun {name tensor} hmem => ?_⟩
  have hparam : (name, ParamType.input tensor) ∈ params := by
    apply hinputs
    rw [List.zip_map_right]
    exact List.mem_map.mpr ⟨(name, tensor), hmem, rfl⟩
  rw [borrowedType, lookup_of_mem hparams hparam]

theorem forall₂_map_eq_iff {α β : Type} {f : α → β} {xs : List α} {ys : List β} :
    List.Forall₂ (fun x y => f x = y) xs ys ↔ xs.map f = ys := by
  rw [← List.forall₂_eq_eq_eq, List.forall₂_map_left_iff]

/-- What is known of a module that was generated. -/
theorem generatedModule_eq_ok_iff {name functionName : String} {inputs : List Input}
    {outputs : List TensorType} {backend : IreeBackend} {vmfbName : String}
    {compileFlags : List String} {m : GeneratedModule} :
    generatedModule name functionName inputs outputs backend vmfbName compileFlags = .ok m ↔
      (isIdent name = true ∧ isKeyword name = false) ∧ isVmFunctionName functionName = true ∧
        inputs.length ≤ maxGraphTupleArity ∧ outputs.length ≤ maxGraphTupleArity ∧
        (∀ input ∈ inputs, isIdent input.name = true ∧ isKeyword input.name = false) ∧
        ∃ inputTypes outputTypes,
          List.Forall₂ (fun (input : Input) tensor => rustTensorType input.ty = .ok tensor)
            inputs inputTypes ∧
          List.Forall₂ (fun ty tensor => rustTensorType ty = .ok tensor) outputs outputTypes ∧
          m = ⟨name, functionName, inputs.map Input.name, inputTypes, inputs.map Input.ty,
            outputTypes, outputs, backend, vmfbName, compileFlags⟩ := by
  simp only [generatedModule, ensureSupportedTupleArity, except_bind_eq_ok_iff,
    except_pure_eq_ok_iff, failIf_eq_ok_iff, sanitizeIdent_eq_ok_iff, Bool.not_eq_false',
    decide_eq_false_iff_not, not_lt, except_mapM_eq_ok_iff, List.forall₂_and_left,
    forall₂_map_eq_iff]
  constructor
  · rintro ⟨_, ⟨hname, rfl⟩, _, hfunction, _, hinputs, _, houtputs, _, ⟨hnames, rfl⟩,
      inputTypes, hinputTypes, outputTypes, houtputTypes, rfl⟩
    exact ⟨hname, hfunction, hinputs, houtputs, hnames, inputTypes, outputTypes, hinputTypes,
      houtputTypes, rfl⟩
  · rintro ⟨hname, hfunction, hinputs, houtputs, hnames, inputTypes, outputTypes, hinputTypes,
      houtputTypes, rfl⟩
    exact ⟨_, ⟨hname, rfl⟩, (), hfunction, (), hinputs, (), houtputs, _, ⟨hnames, rfl⟩,
      inputTypes, hinputTypes, outputTypes, houtputTypes, rfl⟩

namespace GeneratedModule

variable {m : GeneratedModule}

/-- The names of the inputs can be those of parameters, and there is one type for each. -/
structure NamesInputs (m : GeneratedModule) : Prop where
  names : ∀ name ∈ m.inputNames, ParamName name
  nodup : m.inputNames.Nodup
  length : m.inputNames.length = m.inputTypes.length

theorem names_inputParams (h : m.inputNames.length = m.inputTypes.length) :
    m.inputParams.map Prod.fst = m.inputNames := by
  rw [inputParams, List.map_fst_zip]
  rw [List.length_map]
  exact h.le

theorem paramName_engineName : ParamName m.engineName :=
  paramName_underscored (by decide) (by decide) (by decide) _

theorem paramName_outputName : ParamName m.outputName :=
  paramName_underscored (by decide) (by decide) (by decide) _

theorem names_runIntoParams (h : m.NamesInputs) :
    m.runIntoParams.map Prod.fst = m.engineName :: (m.inputNames ++ [m.outputName]) := by
  simp [runIntoParams, runParams, names_inputParams h.length]

/-- The names of the parameters of `run_into` are distinct. -/
theorem nodup_runIntoParams (h : m.NamesInputs) : (m.runIntoParams.map Prod.fst).Nodup := by
  rw [names_runIntoParams h, List.nodup_cons, List.mem_append, List.mem_singleton]
  refine ⟨?_, ?_⟩
  · rintro (hinput | heq)
    · exact freeParam_not_mem _ _ hinput
    · exact underscored_ne (by decide) (by decide) (by decide) _ _ heq
  · rw [List.nodup_append]
    refine ⟨h.nodup, List.nodup_singleton _, fun name hname other hother => ?_⟩
    rw [List.mem_singleton.mp hother]
    rintro rfl
    exact freeParam_not_mem _ _ hname

/-- The parameters of `run_into` can have the names they have. -/
theorem paramName_runIntoParams (h : m.NamesInputs) {param : String × ParamType}
    (hparam : param ∈ m.runIntoParams) : ParamName param.1 := by
  have hname := List.mem_map_of_mem (f := Prod.fst) hparam
  rw [names_runIntoParams h, List.mem_cons, List.mem_append, List.mem_singleton] at hname
  rcases hname with heq | hinput | heq
  · rw [heq]
    exact paramName_engineName
  · exact h.names _ hinput
  · rw [heq]
    exact paramName_outputName

/-- **Every function type-checks.**  The parameters of `run` and of `call` are among those
of `run_into`. -/
theorem functions_wellTyped (h : m.NamesInputs) {fn : WrapperFn} (hfn : fn ∈ m.functions) :
    fn.WellTyped (rustInputType m.inputTypes) (rustOutputType m.outputTypes) := by
  have hrunInto : m.runParams.Sublist m.runIntoParams := List.sublist_append_left ..
  have hcall : m.inputParams.Sublist m.runParams := List.sublist_cons_self ..
  -- what all three have in common
  have hcommon : ∀ params : List (String × ParamType), params.Sublist m.runIntoParams →
      m.inputParams ⊆ params → (params.map Prod.fst).Nodup ∧
        (∀ param ∈ params, ParamName param.1) ∧
        (rustInputExpr m.inputNames).traverse (borrowedType params) =
          some (rustInputType m.inputTypes) := by
    intro params hsub hinputs
    have hnodup := (nodup_runIntoParams h).sublist (hsub.map Prod.fst)
    exact ⟨hnodup, fun param hparam => paramName_runIntoParams h (hsub.subset hparam),
      traverse_borrowedType hnodup h.length hinputs⟩
  simp only [functions, List.mem_cons, List.not_mem_nil, or_false] at hfn
  rcases hfn with rfl | rfl | rfl
  · obtain ⟨hnodup, hparams, hinputs⟩ := hcommon _ hrunInto hcall.subset
    refine ⟨hnodup, hparams, .head _, ?_, hinputs, ?_⟩
    · rintro _ ⟨⟩
      exact lookup_of_mem hnodup List.mem_cons_self
    · rintro _ ⟨⟩
  · obtain ⟨hnodup, hparams, hinputs⟩ :=
      hcommon _ (List.Sublist.refl _) (hcall.trans hrunInto).subset
    refine ⟨hnodup, hparams, .tail _ (.head _), ?_, hinputs, ?_⟩
    · rintro _ ⟨⟩
      exact lookup_of_mem hnodup (hrunInto.subset List.mem_cons_self)
    · rintro _ ⟨⟩
      exact lookup_of_mem hnodup (List.mem_append_right _ List.mem_cons_self)
  · obtain ⟨hnodup, hparams, hinputs⟩ :=
      hcommon _ (hcall.trans hrunInto) (List.Subset.refl _)
    refine ⟨hnodup, hparams, .tail _ (.tail _ (.head _)), ?_, hinputs, ?_⟩
    · rintro _ ⟨⟩
    · rintro _ ⟨⟩

/-- The parameters of `call` are the inputs. -/
theorem call_mem_functions :
    (⟨"call", m.inputParams, ⟨"run_once", none, rustInputExpr m.inputNames, none⟩⟩ : WrapperFn) ∈
      m.functions := by
  simp [functions]

/-- **A module compiles** exactly if the names of the graph and the inputs can be used. -/
theorem compiles_iff (hlen : m.inputNames.length = m.inputTypes.length) :
    m.Compiles ↔ RustIdentifier m.moduleName ∧ m.inputNames.Nodup ∧
      ∀ name ∈ m.inputNames, ParamName name := by
  constructor
  · rintro ⟨hname, hfunctions⟩
    have hcall := hfunctions _ call_mem_functions
    have hdistinct := hcall.distinct
    rw [names_inputParams hlen] at hdistinct
    refine ⟨hname, hdistinct, fun name hmem => ?_⟩
    rw [← names_inputParams hlen] at hmem
    obtain ⟨param, hparam, rfl⟩ := List.mem_map.mp hmem
    exact hcall.names param hparam
  · rintro ⟨hname, hnodup, hnames⟩
    exact ⟨hname, fun fn hfn => functions_wellTyped ⟨hnames, hnodup, hlen⟩ hfn⟩

end GeneratedModule

/-- A module whose inputs have the names of the other parameters. -/
def shadowedModule : GeneratedModule :=
  ⟨"forward", "knok.forward", ["engine", "outputs"],
    [⟨"Tensor2", "f32", [2, 3]⟩, ⟨"Tensor0", "i64", []⟩], [⟨.f32, [2, 3]⟩, ⟨.i64, []⟩],
    [⟨"Tensor1", "f32", [3]⟩], [⟨.f32, [3]⟩], .llvmCpu, "forward.vmfb", []⟩

theorem generatedModule_shadowed :
    generatedModule "forward" "knok.forward"
      [⟨"engine", ⟨.f32, [2, 3]⟩⟩, ⟨"outputs", ⟨.i64, []⟩⟩] [⟨.f32, [3]⟩] .llvmCpu
      "forward.vmfb" [] = .ok shadowedModule := by
  decide +kernel

example : shadowedModule.runIntoParams.map Prod.fst =
    ["engine_", "engine", "outputs", "outputs_"] := by
  decide +kernel

end Knok
